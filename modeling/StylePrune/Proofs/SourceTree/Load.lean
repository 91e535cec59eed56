import StylePrune.Proofs.Disk.Sight
import StylePrune.Proofs.SourceTree.Order
import StylePrune.SourceTree.Load

/-!
# What is loaded

The files of a loaded folder are named by the way from the folder to them.  Where
the names on a disk are names, and each stands once in its folder, such a path is
normal and leads back to the file that was loaded under it.
-/

namespace StylePrune

open Component

theorem lookup_of_mem {α : Type} {entries : List (String × α)}
    (hnodup : (entries.map Prod.fst).Nodup) {name : String} {value : α}
    (h : (name, value) ∈ entries) : entries.lookup name = some value := by
  induction entries with
  | nil => cases h
  | cons entry entries ih =>
      rw [List.map_cons, List.nodup_cons] at hnodup
      rw [List.lookup_cons]
      rcases List.mem_cons.mp h with rfl | h
      · simp
      · have hne : (name == entry.1) = false :=
          beq_eq_false_iff_ne.mpr fun heq => hnodup.1 (List.mem_map.mpr ⟨_, h, heq⟩)
        rw [hne]
        exact ih hnodup.2 h

theorem mem_of_lookup {α : Type} {entries : List (String × α)} {name : String} {value : α}
    (h : entries.lookup name = some value) : (name, value) ∈ entries := by
  obtain ⟨front, back, rfl, -⟩ := List.lookup_eq_some_iff.mp h
  simp

namespace Node

/-- In every folder below a node, the names are names and each stands once. -/
def WellNamed (node : Node) : Prop :=
  ∀ place entries, node.get? place = some (.folder entries) →
    (entries.map Prod.fst).Nodup ∧ ∀ entry ∈ entries, IsName entry.1

theorem WellNamed.get? {node inner : Node} {place : List String} (h : node.WellNamed)
    (hinner : node.get? place = some inner) : inner.WellNamed := by
  intro below entries hbelow
  refine h (place ++ below) entries ?_
  rw [get?_append, hinner]
  exact hbelow

theorem wellNamed_file (bytes : ByteArray) : WellNamed (.file bytes) := by
  intro place entries h
  cases place <;> simp [Node.get?, child?] at h

theorem wellNamed_link (target : Path) : WellNamed (.link target) := by
  intro place entries h
  cases place <;> simp [Node.get?, child?] at h

theorem wellNamed_folder {entries : List (String × Node)}
    (hnodup : (entries.map Prod.fst).Nodup) (hnames : ∀ entry ∈ entries, IsName entry.1)
    (h : ∀ entry ∈ entries, entry.2.WellNamed) :
    WellNamed (.folder entries) := by
  intro place below hbelow
  cases place with
  | nil =>
      obtain rfl : entries = below := by simpa [Node.get?] using hbelow
      exact ⟨hnodup, hnames⟩
  | cons name place =>
      simp only [Node.get?, child?] at hbelow
      split at hbelow
      · rename_i child hchild
        exact h _ (mem_of_lookup hchild) place below hbelow
      · cases hbelow

/-- A folder that holds nothing but files. -/
def ofFiles (files : List (String × ByteArray)) : Node :=
  .folder (files.map fun file => (file.1, .file file.2))

theorem wellNamed_ofFiles {files : List (String × ByteArray)}
    (hnodup : (files.map Prod.fst).Nodup) (hnames : ∀ file ∈ files, IsName file.1) :
    WellNamed (.ofFiles files) := by
  refine wellNamed_folder ?_ (List.forall_mem_map.mpr hnames) ?_
  · rw [List.map_map]
    exact hnodup
  · exact List.forall_mem_map.mpr fun file _ => wellNamed_file file.2

theorem get?_folder {entries : List (String × Node)} {name : String} {child : Node}
    (h : entries.lookup name = some child) (names : List String) :
    Node.get? (.folder entries) (name :: names) = child.get? names := by
  simp only [Node.get?, child?, h]

theorem exists_lookup_of_get? {node inner : Node} {name : String} {names : List String}
    (h : node.get? (name :: names) = some inner) :
    ∃ entries child, node = .folder entries ∧ entries.lookup name = some child ∧
      child.get? names = some inner := by
  rw [Node.get?] at h
  split at h
  · rename_i child hchild
    cases node with
    | folder entries => exact ⟨entries, child, rfl, hchild, h⟩
    | file bytes => cases hchild
    | link target => cases hchild
  · cases h

/-- Names lead down to a node only if they are names. -/
theorem WellNamed.isName_of_get? {node inner : Node} {names : List String}
    (hnode : node.WellNamed) (h : node.get? names = some inner) :
    ∀ name ∈ names, IsName name := by
  induction names generalizing node with
  | nil => exact List.forall_mem_nil _
  | cons name names ih =>
      obtain ⟨entries, child, rfl, hchild, hinner⟩ := exists_lookup_of_get? h
      have hmem : (name, child) ∈ entries := mem_of_lookup hchild
      have hwell : child.WellNamed := hnode.get? (get?_folder hchild [])
      exact List.forall_mem_cons.mpr ⟨(hnode [] entries rfl).2 _ hmem, ih hwell hinner⟩

/-- The regular files that a walk down from `node` is to meet: by going through folders
only, not deeper than `depth`, and admitted at each place on the way. -/
structure Reaches (admitted : List String → Bool) (depth : Nat) (place : List String)
    (node : Node) (names : List String) (bytes : ByteArray) : Prop where
  ne_nil : names ≠ []
  length_le : names.length ≤ depth
  get?_eq : node.get? names = some (.file bytes)
  admits : ∀ front name back, names = front ++ name :: back →
    admitted (place ++ front ++ [name]) = true

/-- One step of the walk: an entry is met if it is admitted, and is a file or leads to
one. -/
theorem reaches_cons_iff {admitted : List String → Bool} {depth : Nat}
    {place names : List String} {entries : List (String × Node)} {name : String}
    {child : Node} {bytes : ByteArray} (hlookup : entries.lookup name = some child) :
    (Node.folder entries).Reaches admitted (depth + 1) place (name :: names) bytes ↔
      admitted (place ++ [name]) = true ∧ (names = [] ∧ child = .file bytes ∨
        child.Reaches admitted depth (place ++ [name]) names bytes) := by
  constructor
  · intro h
    have hget := h.get?_eq
    rw [get?_folder hlookup] at hget
    refine ⟨by simpa using h.admits [] name names rfl, ?_⟩
    cases names with
    | nil => exact Or.inl ⟨rfl, Option.some.inj hget⟩
    | cons next names =>
        refine Or.inr ⟨List.cons_ne_nil _ _, Nat.le_of_succ_le_succ h.length_le, hget, ?_⟩
        intro front inner back hsplit
        have hadmitted := h.admits (name :: front) inner back (congrArg (name :: ·) hsplit)
        simpa using hadmitted
  · rintro ⟨hadmitted, hchild⟩
    have hget : child.get? names = some (.file bytes) := by
      rcases hchild with ⟨rfl, rfl⟩ | hreach
      · rfl
      · exact hreach.get?_eq
    refine ⟨List.cons_ne_nil _ _, ?_, (get?_folder hlookup names).trans hget, ?_⟩
    · rcases hchild with ⟨rfl, -⟩ | hreach
      · exact Nat.succ_le_succ (Nat.zero_le _)
      · exact Nat.succ_le_succ hreach.length_le
    · intro front inner back hsplit
      cases front with
      | nil =>
          obtain ⟨rfl, -⟩ := List.cons.inj hsplit
          simpa using hadmitted
      | cons first front =>
          obtain ⟨rfl, hrest⟩ := List.cons.inj hsplit
          rcases hchild with ⟨rfl, -⟩ | hreach
          · simp at hrest
          · simpa using hreach.admits front inner back hrest

/-- A walk meets nothing below what is no folder. -/
theorem not_reaches_of_ne_folder {admitted : List String → Bool} {depth : Nat} {node : Node}
    {place names : List String} {bytes : ByteArray}
    (hnode : ∀ entries, node ≠ .folder entries) :
    ¬node.Reaches admitted depth place names bytes := by
  intro h
  obtain ⟨name, names, rfl⟩ := List.exists_cons_of_ne_nil h.ne_nil
  obtain ⟨entries, child, heq, -⟩ := exists_lookup_of_get? h.get?_eq
  exact hnode entries heq

/-- In a folder a walk finds the admitted entries that are files, and below the other
admitted ones what it finds there. -/
theorem mem_files_folder_iff {admitted : List String → Bool} {depth : Nat}
    {place q : List String} {entries : List (String × Node)} {bytes : ByteArray} :
    (q, bytes) ∈ (Node.folder entries).files admitted (depth + 1) place ↔
      ∃ name child, (name, child) ∈ entries ∧ admitted (place ++ [name]) = true ∧
        (q = place ++ [name] ∧ child = .file bytes ∨
          (q, bytes) ∈ child.files admitted depth (place ++ [name])) := by
  simp only [files, List.mem_flatMap, Prod.exists]
  refine exists_congr fun name => exists_congr fun child => and_congr_right fun _ => ?_
  by_cases hadmitted : admitted (place ++ [name]) = true
  · cases child with
    | file old =>
        have hnone : (Node.file old).files admitted depth (place ++ [name]) = [] := by
          cases depth <;> rfl
        simp [hadmitted, hnone, eq_comm]
    | folder below => simp [hadmitted]
    | link target => simp [hadmitted]
  · simp [hadmitted]

/-- The files below a node are the ones that a walk is to meet. -/
theorem mem_files_iff {admitted : List String → Bool} {depth : Nat} {node : Node}
    {place q : List String} {bytes : ByteArray} (hnode : node.WellNamed) :
    (q, bytes) ∈ node.files admitted depth place ↔
      ∃ names, q = place ++ names ∧ node.Reaches admitted depth place names bytes := by
  induction depth generalizing node place with
  | zero =>
      refine iff_of_false List.not_mem_nil ?_
      rintro ⟨names, -, hreach⟩
      exact hreach.ne_nil (List.eq_nil_of_length_eq_zero (Nat.le_zero.mp hreach.length_le))
  | succ depth ih =>
      cases node with
      | file old =>
          refine iff_of_false List.not_mem_nil ?_
          rintro ⟨names, -, hreach⟩
          exact not_reaches_of_ne_folder (by simp) hreach
      | link target =>
          refine iff_of_false List.not_mem_nil ?_
          rintro ⟨names, -, hreach⟩
          exact not_reaches_of_ne_folder (by simp) hreach
      | folder entries =>
          obtain ⟨hnodup, -⟩ := hnode [] entries rfl
          rw [mem_files_folder_iff]
          constructor
          · rintro ⟨name, child, hchild, hadmitted, hfound⟩
            have hlookup := lookup_of_mem hnodup hchild
            have hwell : child.WellNamed := hnode.get? (get?_folder hlookup [])
            rcases hfound with ⟨rfl, rfl⟩ | hbelow
            · exact ⟨[name], rfl, (reaches_cons_iff hlookup).mpr
                ⟨hadmitted, Or.inl ⟨rfl, rfl⟩⟩⟩
            · obtain ⟨names, rfl, hreach⟩ := (ih hwell).mp hbelow
              refine ⟨name :: names, by simp, (reaches_cons_iff hlookup).mpr ?_⟩
              exact ⟨hadmitted, Or.inr hreach⟩
          · rintro ⟨names, rfl, hreach⟩
            obtain ⟨name, names, rfl⟩ := List.exists_cons_of_ne_nil hreach.ne_nil
            obtain ⟨entries', child, heq, hlookup, -⟩ :=
              exists_lookup_of_get? hreach.get?_eq
            obtain rfl := Node.folder.inj heq
            have hchild := mem_of_lookup hlookup
            have hwell : child.WellNamed := hnode.get? (get?_folder hlookup [])
            obtain ⟨hadmitted, hfound⟩ := (reaches_cons_iff hlookup).mp hreach
            refine ⟨name, child, hchild, hadmitted, ?_⟩
            rcases hfound with ⟨rfl, rfl⟩ | hbelow
            · exact Or.inl ⟨rfl, rfl⟩
            · exact Or.inr ((ih hwell).mpr ⟨names, by simp, hbelow⟩)

/-- The files below a node are where they are said to be. -/
theorem exists_of_mem_files {admitted : List String → Bool} {depth : Nat} {node : Node}
    {place q : List String} {bytes : ByteArray} (hnode : node.WellNamed)
    (h : (q, bytes) ∈ node.files admitted depth place) :
    ∃ names, q = place ++ names ∧ (∀ name ∈ names, IsName name) ∧
      node.get? names = some (.file bytes) := by
  obtain ⟨names, rfl, hreach⟩ := (mem_files_iff hnode).mp h
  exact ⟨names, rfl, hnode.isName_of_get? hreach.get?_eq, hreach.get?_eq⟩

end Node

namespace Disk

/-- The root is a folder, and names are as they should be. -/
structure WellFormed (disk : Disk) : Prop where
  rooted : disk.Rooted
  named : disk.root.WellNamed

/-! ## Paths below a folder -/

theorem place?_ofComponents_root {cs : List Component} (hcs : ∀ c ∈ cs, IsPlain c)
    (disk : Disk) :
    disk.place? (.ofComponents (.root :: cs)) =
      endOf (follow disk.root maxLinks [] (cs.map Component.text)) := by
  have htext := Path.toList_textOf_root cs
  have hne : Path.textOf (.root :: cs) ≠ "" := by
    intro heq
    rw [heq] at htext
    cases htext
  have hpieces : (Path.ofComponents (.root :: cs)).pieces =
      [] :: (['/'].intercalate (cs.map fun c => c.text.toList)).splitOn '/' := by
    rw [Path.pieces_eq, Path.ofComponents, htext, List.splitOn_cons_eq_if_modifyHead]
    rfl
  rw [place?, locate, Path.ofComponents, if_neg hne, ← Path.ofComponents, hpieces,
    List.map_cons, follow, if_pos (Or.inl rfl)]
  by_cases hnil : cs = []
  · subst hnil
    have hone :
        ((['/'].intercalate ([].map fun c : Component => c.text.toList)).splitOn '/').map
        String.ofList = [""] := rfl
    rw [hone, follow, if_pos (Or.inl rfl)]
    rfl
  · have hlist : ((cs.map fun c => c.text.toList).map String.ofList) =
        cs.map Component.text := by
      rw [List.map_map]
      exact List.map_congr_left fun c _ => String.ofList_toList
    rw [Path.splitOn_intercalate_text hcs hnil, hlist]

/-- A path that leads to a folder is a stage of the paths that it begins. -/
theorem exists_endOf_follow_append {root : Node} (hroot : root.look [] = some .folder)
    (links : Nat) (place pieces : List String) {q : List String}
    (hplace : root.look place = some .folder)
    (h : endOf (follow root links place pieces) = some q)
    (hq : root.look q = some .folder) :
    ∃ left, ∀ more, endOf (follow root links place (pieces ++ more)) =
      endOf (follow root left q more) := by
  match pieces with
  | [] =>
      rw [endOf_follow_nil links hplace] at h
      obtain rfl := Option.some.inj h
      exact ⟨links, fun more => rfl⟩
  | piece :: rest =>
      by_cases hskip : piece = "" ∨ piece = "."
      · have hstep : ∀ pieces, follow root links place (piece :: pieces) =
            follow root links place pieces := fun pieces => by rw [follow, if_pos hskip]
        rw [hstep] at h
        simp only [List.cons_append, hstep]
        exact exists_endOf_follow_append hroot links place rest hplace h hq
      by_cases hup : piece = ".."
      · have hstep : ∀ pieces, follow root links place (piece :: pieces) =
            follow root links place.dropLast pieces :=
          fun pieces => by rw [follow, if_neg hskip, if_pos hup]
        rw [hstep] at h
        simp only [List.cons_append, hstep]
        exact exists_endOf_follow_append hroot links _ rest (Node.look_dropLast hplace) h hq
      rw [endOf_follow_name hskip hup] at h
      simp only [List.cons_append, endOf_follow_name hskip hup]
      split at h
      · rename_i hfolder
        exact exists_endOf_follow_append hroot _ _ rest (passage_eq_folder.mp hfolder) h hq
      · rename_i target links hlink
        simp only [← List.append_assoc]
        refine exists_endOf_follow_append hroot _ _ _ ?_ h hq
        split
        · exact hroot
        · exact hplace
      · cases h
      · rename_i hend _ _
        split at h
        · obtain rfl := Option.some.inj h
          exact (hend (passage_eq_folder.mpr hq)).elim
        · cases h
termination_by (links, pieces.length)

/-- Names lead down to what is not a link. -/
theorem endOf_follow_names {root : Node} {place names : List String} {seen : Sight}
    (hplace : root.look place = some .folder) (hnames : ∀ name ∈ names, IsName name)
    (h : root.look (place ++ names) = some seen) (hseen : ∀ target, seen ≠ .link target)
    (links : Nat) : endOf (follow root links place names) = some (place ++ names) := by
  induction names generalizing place with
  | nil =>
      rw [endOf_follow_nil links hplace, List.append_nil]
  | cons name names ih =>
      obtain ⟨hname, hrest⟩ := List.forall_mem_cons.mp hnames
      have hskip : ¬(name = "" ∨ name = ".") := not_or.mpr ⟨hname.ne_empty, hname.ne_here⟩
      have hsplit : place ++ name :: names = (place ++ [name]) ++ names := by simp
      rw [endOf_follow_name hskip hname.ne_up, hsplit]
      rw [hsplit] at h
      by_cases hfolder : root.look (place ++ [name]) = some .folder
      · rw [hfolder]
        exact ih hfolder hrest h
      · obtain rfl : names = [] := by
          by_contra hne
          exact hfolder (Node.look_of_look_append hne h)
        rw [List.append_nil] at h ⊢
        rw [h]
        cases seen with
        | file bytes => rfl
        | folder => exact (hfolder h).elim
        | link target => exact (hseen target rfl).elim

/-- Names behind a path to a folder lead on from it. -/
theorem place?_append_names {disk : Disk} (hdisk : disk.Rooted) {cs : List Component}
    (hcs : ∀ c ∈ cs, IsPlain c) {names : List String} (hnames : ∀ name ∈ names, IsName name)
    {place : List String} {seen : Sight}
    (hplace : disk.place? (.ofComponents (.root :: cs)) = some place)
    (hfolder : disk.look place = some .folder)
    (h : disk.look (place ++ names) = some seen) (hseen : ∀ target, seen ≠ .link target) :
    disk.place? (.ofComponents (.root :: (cs ++ names.map .name))) =
      some (place ++ names) := by
  have hplain : ∀ c ∈ cs ++ names.map .name, IsPlain c := by
    intro c hc
    rcases List.mem_append.mp hc with hc | hc
    · exact hcs c hc
    · obtain ⟨name, hname, rfl⟩ := List.mem_map.mp hc
      exact .name (hnames name hname)
  have htexts : (cs ++ names.map Component.name).map Component.text =
      cs.map Component.text ++ names := by
    rw [List.map_append, List.map_map]
    exact congrArg _ (List.map_id names)
  rw [place?_ofComponents_root hcs] at hplace
  obtain ⟨left, hleft⟩ := exists_endOf_follow_append hdisk _ _ _ hdisk hplace hfolder
  rw [place?_ofComponents_root hplain, htexts, hleft]
  exact endOf_follow_names hfolder hnames h hseen left

theorem exists_place_of_node {disk : Disk} (hdisk : disk.Rooted) {path : Path} {node : Node}
    (h : disk.node path = .ok node) :
    ∃ place, disk.place? path = some place ∧ disk.root.get? place = some node := by
  rcases locate_cases hdisk path with ⟨fault, hlocate⟩ | ⟨spot, hlocate, hspot⟩
  · simp [Disk.node, hlocate] at h
  · cases spot with
    | absent place => simp [Disk.node, hlocate] at h
    | found place inner =>
        simp only [Disk.node, hlocate] at h
        obtain rfl := Except.ok.inj h
        exact ⟨place, by rw [place?, hlocate]; rfl, hspot⟩

theorem node_root (entries : List (String × Node)) :
    Disk.node ⟨.folder entries⟩ ⟨"/"⟩ = .ok (.folder entries) := by
  cbv

end Disk

namespace SourceTree

theorem pathAt_eq {cs : List Component} (hcs : Path.IsTail cs) {names : List String}
    (hnames : ∀ name ∈ names, IsName name) :
    pathAt (.ofComponents (.root :: cs)) names =
      .ofComponents (.root :: (cs ++ names.map .name)) := by
  induction names generalizing cs with
  | nil => simp [pathAt]
  | cons name names ih =>
      obtain ⟨hname, hrest⟩ := List.forall_mem_cons.mp hnames
      have hone : Path.IsTail (cs ++ [.name name]) :=
        hcs.append_names (List.forall_mem_singleton.mpr hname)
      have hstep : pathAt (.ofComponents (.root :: cs)) (name :: names) =
          pathAt (.ofComponents (.root :: (cs ++ [.name name]))) names := by
        rw [← Path.join_name hcs.plain hname]
        rfl
      rw [hstep, ih hone hrest]
      simp

/-- A loaded file: its path leads on from the folder to the place where its bytes are
seen. -/
structure Entry (disk : Disk) (dir : Path) (path : Path) (text : List Char)
    (place names : List String) (bytes : ByteArray) : Prop where
  named : ∀ name ∈ names, IsName name
  normal : path.IsNormal
  components : path.components = dir.components ++ names.map .name
  place? : disk.place? path = some (place ++ names)
  look : disk.look (place ++ names) = some (.file bytes)
  text : text = Text.decodeLenient bytes

/-- What a loaded tree is. -/
structure Loaded (disk : Disk) (dir : Path) (tree : SourceTree) (place : List String) :
    Prop where
  sorted : tree.Sorted
  place? : disk.place? dir = some place
  folder : disk.look place = some .folder
  entry : ∀ path text, (path, text) ∈ tree →
    ∃ names bytes, Entry disk dir path text place names bytes

/-- Loaded files with different paths are different files. -/
theorem Loaded.path_eq {disk : Disk} {dir path other : Path} {tree : SourceTree}
    {place : List String} (h : Loaded disk dir tree place) (hpath : path ∈ tree.paths)
    (hother : other ∈ tree.paths) (hsame : disk.place? path = disk.place? other) :
    path = other := by
  obtain ⟨⟨path, text⟩, hmem, rfl⟩ := List.mem_map.mp hpath
  obtain ⟨⟨other, text'⟩, hmem', rfl⟩ := List.mem_map.mp hother
  obtain ⟨names, bytes, hentry⟩ := h.entry path text hmem
  obtain ⟨names', bytes', hentry'⟩ := h.entry other text' hmem'
  rw [hentry.place?, hentry'.place?, Option.some.injEq, List.append_right_inj] at hsame
  refine hentry.normal.eq_of_components hentry'.normal ?_
  rw [hentry.components, hentry'.components, hsame]

/-- A folder on the way to a loaded file is a stage of its place. -/
theorem Loaded.exists_stage {disk : Disk} (hdisk : disk.Rooted) {base dir path : Path}
    (hbase : base.IsNormal) (hdir : dir.IsNormal) {tree : SourceTree} {text : List Char}
    {place names : List String} {bytes : ByteArray} (h : Loaded disk base tree place)
    (hentry : Entry disk base path text place names bytes)
    (hinside : dir.startsWith base = true) (hbelow : path.startsWith dir = true) :
    ∃ stage rest, disk.place? dir = some stage ∧ place ++ names = stage ++ rest := by
  obtain ⟨cs, rfl, hcs⟩ := hbase.exists_tail
  obtain ⟨ds, rfl, hds⟩ := hdir.exists_tail
  rw [Path.startsWith_iff, hcs.components, hds.components, List.cons_prefix_cons] at hinside
  rw [Path.startsWith_iff, hentry.components, hcs.components, hds.components,
    List.cons_append, List.cons_prefix_cons] at hbelow
  obtain ⟨es, rfl⟩ := hinside.2
  have hes := (List.prefix_append_right_inj cs).mp hbelow.2
  obtain ⟨front, hfront, rfl⟩ := List.prefix_map_iff.mp hes
  obtain ⟨rest, rfl⟩ := hfront
  refine ⟨place ++ front, rest, ?_, by rw [List.append_assoc]⟩
  have hnames : ∀ name ∈ front, IsName name :=
    fun name hname => hentry.named name (List.mem_append_left _ hname)
  have hlook := hentry.look
  rw [← List.append_assoc] at hlook
  by_cases hrest : rest = []
  · rw [hrest, List.append_nil] at hlook
    exact Disk.place?_append_names hdisk hcs.plain hnames h.place? h.folder hlook (by simp)
  · have hfolder := Node.look_of_look_append hrest hlook
    exact Disk.place?_append_names hdisk hcs.plain hnames h.place? h.folder
      hfolder (by simp)

theorem loaded_of_load {disk : Disk} (hdisk : disk.WellFormed) {selection : Selection}
    {dir : Path} (hdir : dir.IsNormal) {tree : SourceTree}
    (h : load disk selection dir = .ok tree) : ∃ place, Loaded disk dir tree place := by
  unfold load at h
  split at h
  · cases h
  · rename_i entries hnode
    obtain ⟨place, hplace, hget⟩ := Disk.exists_place_of_node hdisk.rooted hnode
    split at h
    · cases h
    · rename_i globs hglobs
      obtain rfl := Except.ok.inj h
      have hfolder : disk.look place = some .folder := by
        rw [Disk.look, Node.look, hget]
        rfl
      obtain ⟨cs, rfl, hcs⟩ := hdir.exists_tail
      have hfile : ∀ q bytes,
          (q, bytes) ∈ (Node.folder entries).files
            (isAdmitted globs) selection.maxDepth [] →
          Entry disk (.ofComponents (.root :: cs)) (pathAt (.ofComponents (.root :: cs)) q)
            (Text.decodeLenient bytes) place q bytes := by
        intro q bytes hq
        obtain ⟨names, rfl, hnames, hinner⟩ :=
          Node.exists_of_mem_files (hdisk.named.get? hget) hq
        have hlook : disk.look (place ++ q) = some (.file bytes) := by
          rw [Disk.look, Node.look, Node.get?_append, hget, Option.bind_some, hinner]
          rfl
        have htail := hcs.append_names hnames
        rw [pathAt_eq hcs hnames]
        refine ⟨hnames, htail.isNormal, ?_, ?_, hlook, rfl⟩
        · rw [htail.components, hcs.components]
          rfl
        · exact Disk.place?_append_names hdisk.rooted hcs.plain hnames hplace hfolder
            hlook (by simp)
      refine ⟨place, PathMap.sorted_ofList _, hplace, hfolder, ?_⟩
      intro path text hmem
      refine Exists.elim (List.mem_map.mp (PathMap.mem_of_mem_ofList ?_ hmem)) ?_
      · intro a ha b hb hsame
        obtain ⟨⟨q, old⟩, hq, rfl⟩ := List.mem_map.mp ha
        obtain ⟨⟨q', old'⟩, hq', rfl⟩ := List.mem_map.mp hb
        exact (hfile q old hq).normal.eq_of_components (hfile q' old' hq').normal
          (of_decide_eq_true hsame)
      · rintro ⟨q, bytes⟩ ⟨hq, heq⟩
        obtain ⟨rfl, rfl⟩ := Prod.mk.inj heq
        exact ⟨q, bytes, hfile q bytes hq⟩
  · cases h

/-! ## Folders that hold files only -/

/-- A folder that holds nothing but admitted files is loaded as these. -/
theorem load_ofFiles {disk : Disk} {selection : Selection} {dir : Path}
    {files : List (String × ByteArray)} (hnode : disk.node dir = .ok (.ofFiles files))
    (hadmitted : (readPatterns selection.ignore).map
      (fun tests => files.all fun file => isAdmitted tests [file.1]) = .ok true)
    (hdepth : selection.maxDepth ≠ 0) :
    load disk selection dir = .ok (PathMap.ofList
      (files.map fun file => (pathAt dir [file.1], Text.decodeLenient file.2))) := by
  obtain ⟨depth, hdepth⟩ := Nat.exists_eq_succ_of_ne_zero hdepth
  cases htests : readPatterns selection.ignore with
  | error e => simp [htests, Except.map] at hadmitted
  | ok tests =>
      have hnames : ∀ file ∈ files, isAdmitted tests [file.1] = true := by
        simpa [htests, Except.map] using hadmitted
      have hfiles : (Node.ofFiles files).files (isAdmitted tests) selection.maxDepth [] =
          files.map fun file => ([file.1], file.2) := by
        rw [hdepth, Node.ofFiles, Node.files, List.flatMap_map, List.map_eq_flatMap]
        refine List.flatMap_congr fun file hfile => ?_
        simp [hnames file hfile]
      rw [Node.ofFiles] at hnode hfiles
      simp only [load, hnode, htests, hfiles, List.map_map]
      rfl

/-! ## A disk that holds one file -/

theorem wellFormed_root_file {name : String} (hname : IsName name) (bytes : ByteArray) :
    Disk.WellFormed ⟨.folder [(name, .file bytes)]⟩ := by
  refine ⟨rfl, ?_⟩
  show Node.WellNamed (.ofFiles [(name, bytes)])
  exact Node.wellNamed_ofFiles (by simp) (List.forall_mem_singleton.mpr hname)

theorem load_root_file {selection : Selection} {name : String}
    (hadmitted : (readPatterns selection.ignore).map (isAdmitted · [name]) = .ok true)
    (hdepth : selection.maxDepth ≠ 0) (bytes : ByteArray) :
    load ⟨.folder [(name, .file bytes)]⟩ selection ⟨"/"⟩ =
      .ok [(pathAt ⟨"/"⟩ [name], Text.decodeLenient bytes)] := by
  have hnode : Disk.node ⟨.folder [(name, .file bytes)]⟩ ⟨"/"⟩ =
      .ok (.ofFiles [(name, bytes)]) :=
    Disk.node_root _
  exact load_ofFiles hnode (by simpa using hadmitted) hdepth

end SourceTree

end StylePrune
