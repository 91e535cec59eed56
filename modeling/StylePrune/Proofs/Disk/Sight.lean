import Mathlib.Data.List.Infix
import StylePrune.Disk
import StylePrune.Proofs.Path.Components
import StylePrune.Proofs.Text.Runs

/-!
# What is seen on a disk

A disk is looked at in two steps: a path leads to a place, and at a place there
is a file, a folder, a link or nothing.  `place?` is the first step and `look`
the second.  Reading is a look at the place that a path leads to.  Writing a
file changes what is seen at one place and leads no path elsewhere, whatever
links there are; so a disk behaves like a map from places to what they hold.
-/

namespace StylePrune

/-- What is seen at a place; what a folder holds is seen at other places. -/
inductive Sight where
  | file (bytes : ByteArray)
  | folder
  | link (target : Path)

namespace Node

/-- What is seen of a node. -/
def sight : Node → Sight
  | .file bytes => .file bytes
  | .folder _ => .folder
  | .link target => .link target

/-- What is seen at a place below a node. -/
def look (node : Node) (place : List String) : Option Sight :=
  (node.get? place).map sight

theorem sight_eq_folder {node : Node} (h : node.sight = .folder) :
    ∃ entries, node = .folder entries := by
  cases node with
  | folder entries => exact ⟨entries, rfl⟩
  | file bytes => cases h
  | link target => cases h

theorem look_cons (entries : List (String × Node)) (name : String) (place : List String) :
    look (.folder entries) (name :: place) =
      (entries.lookup name).bind fun child => child.look place := by
  simp only [look, get?, child?]
  cases entries.lookup name <;> rfl

theorem get?_of_look {node : Node} {place : List String} {seen : Sight}
    (h : node.look place = some seen) :
    ∃ inner, node.get? place = some inner ∧ inner.sight = seen :=
  Option.map_eq_some_iff.mp h

theorem get?_append (node : Node) (front back : List String) :
    node.get? (front ++ back) = (node.get? front).bind fun inner => inner.get? back := by
  induction front generalizing node with
  | nil => rfl
  | cons name front ih =>
      simp only [List.cons_append, get?]
      cases node.child? name with
      | none => rfl
      | some child => exact ih child

/-- Only a folder has something below it. -/
theorem look_of_look_append {node : Node} {place below : List String} {seen : Sight}
    (hbelow : below ≠ []) (h : node.look (place ++ below) = some seen) :
    node.look place = some .folder := by
  obtain ⟨name, rest, rfl⟩ := List.exists_cons_of_ne_nil hbelow
  rw [look, get?_append] at h
  cases hinner : node.get? place with
  | none => simp [hinner] at h
  | some inner =>
      rw [look, hinner]
      cases inner with
      | folder entries => rfl
      | file bytes => simp [hinner, get?, child?] at h
      | link target => simp [hinner, get?, child?] at h

theorem look_dropLast {node : Node} {place : List String}
    (h : node.look place = some .folder) : node.look place.dropLast = some .folder := by
  rcases List.eq_nil_or_concat' place with rfl | ⟨front, name, rfl⟩
  · exact h
  · rw [List.dropLast_concat]
    exact look_of_look_append (by simp) h

theorem lookup_putEntry (name other : String) (node : Node)
    (entries : List (String × Node)) :
    (putEntry name node entries).lookup other =
      if other = name then some node else entries.lookup other := by
  induction entries with
  | nil =>
      by_cases h : other = name
      · simp [putEntry, h]
      · have hne : (other == name) = false := by simpa using h
        simp [putEntry, List.lookup_cons, h, hne]
  | cons entry entries ih =>
      obtain ⟨n, old⟩ := entry
      by_cases hn : n = name
      · subst hn
        by_cases h : other = n
        · simp [putEntry, h]
        · have hne : (other == n) = false := by simpa using h
          simp [putEntry, List.lookup_cons, h, hne]
      · rw [putEntry, if_neg hn, List.lookup_cons, List.lookup_cons, ih]
        by_cases h : other = n
        · subst h
          simp [hn]
        · have hne : (other == n) = false := by simpa using h
          simp [hne]

/-- A place where a file can be put: a folder holds a file under that name, or nothing. -/
structure IsSlot (node : Node) (place : List String) : Prop where
  ne_nil : place ≠ []
  folder : node.look place.dropLast = some .folder
  free : node.look place = none ∨ ∃ bytes, node.look place = some (.file bytes)

/-- A file that is put into a slot is seen there, and nothing else changes. -/
theorem look_put {node : Node} {place : List String} (hslot : node.IsSlot place)
    (bytes : ByteArray) (other : List String) :
    (node.put place (.file bytes)).look other =
      if other = place then some (.file bytes) else node.look other := by
  obtain ⟨dir, name, rfl⟩ :=
    (List.eq_nil_or_concat' place).resolve_left hslot.ne_nil
  have hdir := hslot.folder
  have hfree := hslot.free
  rw [List.dropLast_concat] at hdir
  clear hslot
  induction dir generalizing node other with
  | nil =>
      obtain ⟨entries, rfl⟩ : ∃ entries, node = .folder entries :=
        sight_eq_folder (Option.some.inj hdir)
      cases other with
      | nil => rfl
      | cons n rest =>
          rw [List.nil_append, put, put, look_cons, look_cons, lookup_putEntry]
          by_cases hn : n = name
          · subst hn
            cases rest with
            | nil => simp [look, get?, sight]
            | cons m rest =>
                rw [List.nil_append, look_cons] at hfree
                cases hchild : entries.lookup n with
                | none => simp [look, get?, child?]
                | some child =>
                    cases child with
                    | file old => simp [look, get?, child?]
                    | folder inner => simp [hchild, look, get?, sight] at hfree
                    | link target => simp [hchild, look, get?, sight] at hfree
          · have hne : n :: rest ≠ [name] := by simp [hn]
            simp only [if_neg hn, if_neg hne]
  | cons n dir ih =>
      obtain ⟨entries, rfl⟩ : ∃ entries, node = .folder entries := by
        have hbelow : node.look ([] ++ n :: dir) = some .folder := hdir
        have hroot := look_of_look_append (by simp) hbelow
        exact sight_eq_folder (Option.some.inj hroot)
      rw [look_cons] at hdir
      obtain ⟨child, hchild, hinner⟩ := Option.bind_eq_some_iff.mp hdir
      rw [List.cons_append, look_cons, hchild] at hfree
      cases other with
      | nil => rfl
      | cons m rest =>
          rw [List.cons_append, put, look_cons, look_cons, lookup_putEntry, hchild]
          by_cases hm : m = n
          · subst hm
            simp only [if_pos, Option.bind_some, Option.getD_some, List.cons.injEq,
              true_and, hchild]
            exact ih rest hinner hfree
          · have hne : m :: rest ≠ n :: (dir ++ [name]) := by simp [hm]
            simp only [if_neg hm, if_neg hne]

end Node

namespace Disk

/-- What is seen at a place of a disk. -/
def look (disk : Disk) (place : List String) : Option Sight :=
  disk.root.look place

/-- The text of the file at a place. -/
def textAt? (disk : Disk) (place : List String) : Option (List Char) :=
  match disk.look place with
  | some (.file bytes) => Text.decode? bytes
  | _ => none

/-- The root of a disk is a folder. -/
def Rooted (disk : Disk) : Prop :=
  disk.look [] = some .folder

/-- The place of a spot. -/
def Spot.place : Spot → List String
  | .found place _ => place
  | .absent place => place

/-- The place that the way along a path ends at. -/
def endOf (course : Except Fault Spot) : Option (List String) :=
  course.toOption.map Spot.place

/-- The place that a path leads to, where something stands or could be put. -/
def place? (disk : Disk) (path : Path) : Option (List String) :=
  endOf (disk.locate path)

/-! ## Following a path -/

/-- What a spot says of its place is so. -/
def Spot.Holds (root : Node) : Spot → Prop
  | .found place node => root.get? place = some node
  | .absent place =>
    root.look place = none ∧ place ≠ [] ∧ root.look place.dropLast = some .folder

theorem holds_follow {root : Node} {links : Nat} {place pieces : List String} {spot : Spot}
    (hroot : root.look [] = some .folder) (hplace : root.look place = some .folder)
    (h : follow root links place pieces = .ok spot) : spot.Holds root := by
  fun_induction follow root links place pieces generalizing spot with
  | case1 links place node hnode =>
      cases h
      exact hnode
  | case2 => cases h
  | case3 links place piece rest hskip ih => exact ih hplace h
  | case4 links place rest hskip ih => exact ih (Node.look_dropLast hplace) h
  | case5 links place piece hskip hup hnone =>
      cases h
      refine ⟨by rw [Node.look, hnone]; rfl, by simp, ?_⟩
      rw [List.dropLast_concat]
      exact hplace
  | case6 => cases h
  | case7 links place piece hskip hup bytes hfile =>
      cases h
      exact hfile
  | case8 => cases h
  | case9 links place piece rest hskip hup entries hfolder ih =>
      exact ih (by rw [Node.look, hfolder]; rfl) h
  | case10 => cases h
  | case11 place piece rest hskip hup target hlink links ih =>
      refine ih ?_ h
      split
      · exact hroot
      · exact hplace

/-- A way to a file does not end with a slash. -/
theorem getLast?_of_follow_file {root : Node} {links : Nat} {place pieces q : List String}
    {bytes : ByteArray} (hroot : root.look [] = some .folder)
    (hplace : root.look place = some .folder)
    (h : follow root links place pieces = .ok (.found q (.file bytes))) :
    pieces ≠ [] ∧ pieces.getLast? ≠ some "" := by
  fun_induction follow root links place pieces with
  | case1 links place node hnode =>
      cases h
      simp [Node.look, hnode, Node.sight] at hplace
  | case2 => cases h
  | case3 links place piece rest hskip ih =>
      obtain ⟨hne, hlast⟩ := ih hplace h
      rw [List.getLast?_cons_of_ne_nil hne]
      exact ⟨by simp, hlast⟩
  | case4 links place rest hskip ih =>
      obtain ⟨hne, hlast⟩ := ih (Node.look_dropLast hplace) h
      rw [List.getLast?_cons_of_ne_nil hne]
      exact ⟨by simp, hlast⟩
  | case5 => cases h
  | case6 => cases h
  | case7 links place piece hskip hup bytes hfile =>
      have hpiece : piece ≠ "" := fun heq => hskip (Or.inl heq)
      simpa using hpiece
  | case8 => cases h
  | case9 links place piece rest hskip hup entries hfolder ih =>
      obtain ⟨hne, hlast⟩ := ih (by rw [Node.look, hfolder]; rfl) h
      rw [List.getLast?_cons_of_ne_nil hne]
      exact ⟨by simp, hlast⟩
  | case10 => cases h
  | case11 place piece rest hskip hup target hlink links ih =>
      have hstart : root.look (if target.isAbsolute then [] else place) = some .folder := by
        split
        · exact hroot
        · exact hplace
      obtain ⟨-, hlast⟩ := ih hstart h
      refine ⟨by simp, ?_⟩
      by_cases hrest : rest = []
      · have hpiece : piece ≠ "" := fun heq => hskip (Or.inl heq)
        simpa [hrest] using hpiece
      · rw [List.getLast?_append_of_ne_nil _ hrest] at hlast
        rw [List.getLast?_cons_of_ne_nil hrest]
        exact hlast

/-- What a path can go on through. -/
def passage : Option Sight → Option Sight
  | some (.file _) => none
  | seen => seen

theorem passage_eq_folder {seen : Option Sight} :
    passage seen = some .folder ↔ seen = some .folder := by
  cases seen with
  | none => rfl
  | some seen => cases seen <;> simp [passage]

theorem endOf_follow_nil {root : Node} {place : List String} (links : Nat)
    (hplace : root.look place = some .folder) :
    endOf (follow root links place []) = some place := by
  obtain ⟨node, hnode, -⟩ := Node.get?_of_look hplace
  rw [follow, hnode]
  rfl

/-- One step of a path by name. -/
theorem endOf_follow_name {piece : String} (hskip : ¬(piece = "" ∨ piece = "."))
    (hup : piece ≠ "..") (root : Node) (links : Nat) (place rest : List String) :
    endOf (follow root links place (piece :: rest)) =
      match passage (root.look (place ++ [piece])), links with
      | some .folder, links => endOf (follow root links (place ++ [piece]) rest)
      | some (.link target), links + 1 =>
        endOf (follow root links (if target.isAbsolute then [] else place)
          (target.pieces.map String.ofList ++ rest))
      | some (.link _), 0 => none
      | _, _ => if rest = [] then some (place ++ [piece]) else none := by
  rw [follow, if_neg hskip, if_neg hup, Node.look]
  cases hnode : root.get? (place ++ [piece]) with
  | none =>
      by_cases hrest : rest = []
      · simp [hrest, passage, endOf, Except.toOption, Spot.place]
      · simp [hrest, passage, endOf, Except.toOption]
  | some node =>
      cases node with
      | file bytes =>
          by_cases hrest : rest = []
          · simp [hrest, passage, endOf, Except.toOption, Spot.place, Node.sight]
          · simp [hrest, passage, endOf, Except.toOption, Node.sight]
      | folder entries => rfl
      | link target =>
          cases links with
          | zero => rfl
          | succ links => rfl

/-- Where a path leads is a matter of the folders and links alone. -/
theorem endOf_follow_congr {root root' : Node} (hroot : root.look [] = some .folder)
    (hsame : ∀ place, passage (root'.look place) = passage (root.look place))
    (links : Nat) (place pieces : List String) (hplace : root.look place = some .folder) :
    endOf (follow root' links place pieces) = endOf (follow root links place pieces) := by
  match pieces with
  | [] =>
      have hplace' : root'.look place = some .folder := by
        rw [← passage_eq_folder, hsame, passage_eq_folder]
        exact hplace
      rw [endOf_follow_nil links hplace, endOf_follow_nil links hplace']
  | piece :: rest =>
      by_cases hskip : piece = "" ∨ piece = "."
      · rw [follow, if_pos hskip, follow, if_pos hskip]
        exact endOf_follow_congr hroot hsame links place rest hplace
      by_cases hup : piece = ".."
      · rw [follow, if_neg hskip, if_pos hup, follow, if_neg hskip, if_pos hup]
        exact endOf_follow_congr hroot hsame links _ rest (Node.look_dropLast hplace)
      rw [endOf_follow_name hskip hup, endOf_follow_name hskip hup, hsame]
      split
      · rename_i hfolder
        exact endOf_follow_congr hroot hsame _ _ rest (passage_eq_folder.mp hfolder)
      · refine endOf_follow_congr hroot hsame _ _ _ ?_
        split
        · exact hroot
        · exact hplace
      · rfl
      · rfl
termination_by (links, pieces.length)

/-! ## Reading and writing -/

theorem locate_cases {disk : Disk} (hdisk : disk.Rooted) (path : Path) :
    (∃ fault, disk.locate path = .error fault) ∨
      ∃ spot, disk.locate path = .ok spot ∧ spot.Holds disk.root := by
  cases hspot : disk.locate path with
  | error fault => exact Or.inl ⟨fault, rfl⟩
  | ok spot =>
      refine Or.inr ⟨spot, rfl, ?_⟩
      unfold locate at hspot
      split at hspot
      · cases hspot
      · exact holds_follow hdisk hdisk hspot

theorem read_eq_ok_iff {disk : Disk} (hdisk : disk.Rooted) {path : Path}
    {bytes : ByteArray} :
    disk.read path = .ok bytes ↔
      ∃ place, disk.place? path = some place ∧ disk.look place = some (.file bytes) := by
  rcases locate_cases hdisk path with ⟨fault, h⟩ | ⟨spot, h, hspot⟩
  · simp [read, node, place?, h, endOf, Except.toOption]
  · cases spot with
    | absent place =>
        simp [read, node, place?, h, endOf, Except.toOption, Spot.place, look, hspot.1]
    | found place node =>
        have hlook : disk.look place = some node.sight := by
          rw [look, Node.look, hspot]
          rfl
        simp only [read, Disk.node, place?, h, endOf, Except.toOption, Spot.place,
          Option.map_some, Option.some.injEq, exists_eq_left', hlook]
        cases node <;> simp [Node.sight]

/-- The text of a file is read off the place that its path leads to. -/
theorem readText_eq_ok_iff {disk : Disk} (hdisk : disk.Rooted) {path : Path}
    {text : List Char} :
    disk.readText path = .ok text ↔
      ∃ place, disk.place? path = some place ∧ disk.textAt? place = some text := by
  constructor
  · intro h
    unfold readText at h
    split at h
    · cases h
    · rename_i bytes hread
      obtain ⟨place, hplace, hlook⟩ := (read_eq_ok_iff hdisk).mp hread
      refine ⟨place, hplace, ?_⟩
      rw [textAt?, hlook]
      split at h
      · rename_i hdecode
        exact hdecode.trans (congrArg some (Except.ok.inj h))
      · cases h
  · rintro ⟨place, hplace, htext⟩
    unfold textAt? at htext
    split at htext
    · rename_i bytes hlook
      rw [readText, (read_eq_ok_iff hdisk).mpr ⟨place, hplace, hlook⟩]
      simp only [htext]
    · cases htext

theorem withoutSlash_eq_self {path : Path} (h : path.text.toList.getLast? ≠ some '/') :
    withoutSlash path = path := by
  have hdrop : Text.dropEndWhile (· == '/') path.text.toList = path.text.toList := by
    refine Text.dropEndWhile_eq_self_of_last fun c hc => ?_
    have hne : c ≠ '/' := fun heq => h (heq ▸ hc)
    simpa using hne
  rw [Text.dropEndWhile] at hdrop
  rw [withoutSlash, hdrop, String.ofList_toList]

/-- A path with a slash at its end leads to no file. -/
theorem getLast?_of_read {disk : Disk} (hdisk : disk.Rooted) {path : Path}
    {bytes : ByteArray} (h : disk.read path = .ok bytes) :
    path.text.toList.getLast? ≠ some '/' := by
  intro hlast
  obtain ⟨front, hfront⟩ : ∃ front, path.text.toList = front ++ ['/'] := by
    rcases List.eq_nil_or_concat' path.text.toList with hnil | ⟨front, c, hfront⟩
    · simp [hnil] at hlast
    · rw [hfront] at hlast
      simp only [List.getLast?_append, List.getLast?_singleton, Option.some_or,
        Option.some.injEq] at hlast
      exact ⟨front, hlast ▸ hfront⟩
  have hpieces : (path.pieces.map String.ofList).getLast? = some "" := by
    rw [Path.pieces_eq, hfront, List.splitOn_append_cons_self]
    simp
  rcases locate_cases hdisk path with ⟨fault, hlocate⟩ | ⟨spot, hlocate, -⟩
  · simp [read, node, hlocate] at h
  · have hspot : ∃ place, spot = .found place (.file bytes) := by
      cases spot with
      | absent place => simp [read, node, hlocate] at h
      | found place node => cases node <;> simp_all [read, Disk.node]
    obtain ⟨place, rfl⟩ := hspot
    unfold locate at hlocate
    split at hlocate
    · cases hlocate
    · exact (getLast?_of_follow_file hdisk hdisk hlocate).2 hpieces

theorem Spot.Holds.isSlot {root : Node} {spot : Spot} (hroot : root.look [] = some .folder)
    (h : spot.Holds root)
    (hfree : ∀ place node, spot = .found place node → ∃ bytes, node = .file bytes) :
    root.IsSlot spot.place := by
  cases spot with
  | absent place => exact ⟨h.2.1, h.2.2, Or.inl h.1⟩
  | found place node =>
      obtain ⟨bytes, rfl⟩ := hfree place node rfl
      have hlook : root.look place = some (.file bytes) := by
        rw [Node.look, h]
        rfl
      have hne : place ≠ [] := by
        rintro rfl
        rw [hroot] at hlook
        cases hlook
      refine ⟨hne, ?_, Or.inr ⟨bytes, hlook⟩⟩
      rw [← List.dropLast_append_getLast hne] at hlook
      exact Node.look_of_look_append (by simp) hlook

/-- A file has been written at a place: it is seen there, all else is seen as before,
and every path leads where it led. -/
structure Wrote (disk disk' : Disk) (place : List String) (bytes : ByteArray) : Prop where
  rooted : disk'.Rooted
  look : ∀ other,
    disk'.look other = if other = place then some (.file bytes) else disk.look other
  place? : ∀ path, disk'.place? path = disk.place? path

theorem wrote_put {disk : Disk} (hdisk : disk.Rooted) {place : List String}
    (hslot : disk.root.IsSlot place) (bytes : ByteArray) :
    Wrote disk ⟨disk.root.put place (.file bytes)⟩ place bytes := by
  have hlook := Node.look_put hslot bytes
  refine ⟨?_, hlook, ?_⟩
  · exact (hlook []).trans ((if_neg hslot.ne_nil.symm).trans hdisk)
  · intro path
    have hsame : ∀ other, passage ((disk.root.put place (.file bytes)).look other) =
        passage (disk.root.look other) := by
      intro other
      rw [hlook]
      by_cases hother : other = place
      · subst hother
        rcases hslot.free with hnone | ⟨old, hold⟩
        · simp [hnone, passage]
        · simp [hold, passage]
      · rw [if_neg hother]
    unfold Disk.place? locate
    split
    · rfl
    · exact endOf_follow_congr hdisk hsame _ _ _ hdisk

/-- Writing along a path puts a file into the slot that the path leads to. -/
theorem slot_of_write {disk disk' : Disk} (hdisk : disk.Rooted) {path : Path}
    {bytes : ByteArray} (h : disk.write path bytes = .ok disk') :
    ∃ place, disk.place? path = some place ∧ disk.root.IsSlot place ∧
      disk' = ⟨disk.root.put place (.file bytes)⟩ := by
  have hlast : path.text.toList.getLast? ≠ some '/' := by
    intro hlast
    simp only [write, hlast, if_true] at h
    split at h <;> cases h
  simp only [write, withoutSlash_eq_self hlast, if_neg hlast] at h
  rcases locate_cases hdisk path with ⟨fault, hspot⟩ | ⟨spot, hspot, hholds⟩
  · simp [hspot] at h
  · have hfree : ∀ place node, spot = .found place node → ∃ bytes, node = .file bytes := by
      rintro place node rfl
      rw [hspot] at h
      cases node with
      | file old => exact ⟨old, rfl⟩
      | folder entries => cases h
      | link target => cases h
    have hput : disk' = ⟨disk.root.put spot.place (.file bytes)⟩ := by
      rw [hspot] at h
      cases spot with
      | absent place => exact (Except.ok.inj h).symm
      | found place node =>
          obtain ⟨old, rfl⟩ := hfree place node rfl
          exact (Except.ok.inj h).symm
    exact ⟨spot.place, by rw [Disk.place?, hspot]; rfl, hholds.isSlot hdisk hfree, hput⟩

/-- What writing a file does. -/
theorem wrote_of_write {disk disk' : Disk} (hdisk : disk.Rooted) {path : Path}
    {bytes : ByteArray} (h : disk.write path bytes = .ok disk') :
    ∃ place, disk.place? path = some place ∧ Wrote disk disk' place bytes := by
  obtain ⟨place, hplace, hslot, rfl⟩ := slot_of_write hdisk h
  exact ⟨place, hplace, wrote_put hdisk hslot bytes⟩

/-- A file is made where a folder does not hold it. -/
theorem write_of_absent {disk : Disk} {path : Path} {place : List String}
    (h : disk.locate path = .ok (.absent place))
    (hlast : path.text.toList.getLast? ≠ some '/') (bytes : ByteArray) :
    disk.write path bytes = .ok ⟨disk.root.put place (.file bytes)⟩ := by
  simp only [write, withoutSlash_eq_self hlast, h, if_neg hlast]

/-- A file that can be read can be written. -/
theorem exists_write_of_read {disk : Disk} (hdisk : disk.Rooted) {path : Path}
    {old : ByteArray} (h : disk.read path = .ok old) (bytes : ByteArray) :
    ∃ disk', disk.write path bytes = .ok disk' := by
  have hlast := getLast?_of_read hdisk h
  simp only [write, withoutSlash_eq_self hlast, if_neg hlast]
  rcases locate_cases hdisk path with ⟨fault, hspot⟩ | ⟨spot, hspot, -⟩
  · simp [read, node, hspot] at h
  · cases spot with
    | absent place => simp [read, node, hspot] at h
    | found place node =>
        cases node with
        | file old => exact ⟨_, by rw [hspot]⟩
        | folder entries => simp [read, Disk.node, hspot] at h
        | link target => simp [read, Disk.node, hspot] at h

/-! ## A disk of one file -/

/-- A piece of a path that leads from the root back to it. -/
def StaysAtRoot (piece : String) : Prop :=
  piece = "" ∨ piece = "." ∨ piece = ".."

instance (piece : String) : Decidable (StaysAtRoot piece) :=
  inferInstanceAs (Decidable (_ ∨ _ ∨ _))

theorem follow_staysAtRoot_append {front : List String}
    (hfront : ∀ piece ∈ front, StaysAtRoot piece) (root : Node) (links : Nat)
    (rest : List String) :
    follow root links [] (front ++ rest) = follow root links [] rest := by
  induction front with
  | nil => rfl
  | cons piece front ih =>
      obtain ⟨hpiece, hfront⟩ := List.forall_mem_cons.mp hfront
      rw [List.cons_append, follow]
      by_cases hskip : piece = "" ∨ piece = "."
      · rw [if_pos hskip, ih hfront]
      · have hup : piece = ".." := (or_assoc.mpr hpiece).resolve_left hskip
        rw [if_neg hskip, if_pos hup]
        exact ih hfront

/-- A path by a name in the root folder. -/
structure IsAtRoot (path : Path) (name : String) : Prop where
  nonempty : path.text ≠ ""
  front : ∀ piece ∈ (path.pieces.map String.ofList).dropLast, StaysAtRoot piece
  last : (path.pieces.map String.ofList).getLast? = some name
  named : Component.IsName name

instance (path : Path) (name : String) : Decidable (IsAtRoot path name) :=
  decidable_of_iff
    (path.text ≠ "" ∧
      (∀ piece ∈ (path.pieces.map String.ofList).dropLast, StaysAtRoot piece) ∧
      (path.pieces.map String.ofList).getLast? = some name ∧ Component.IsName name)
    ⟨fun ⟨h, h', h'', h'''⟩ => ⟨h, h', h'', h'''⟩, fun h => ⟨h.1, h.2, h.3, h.4⟩⟩

/-- What the root folder holds is found by its name, unless it is a link. -/
theorem locate_at_root {path : Path} {name : String} (h : IsAtRoot path name)
    {entries : List (String × Node)}
    (hlink : ∀ target, entries.lookup name ≠ some (.link target)) :
    locate ⟨.folder entries⟩ path =
      .ok (match entries.lookup name with
        | some node => .found [name] node
        | none => .absent [name]) := by
  have hskip : ¬(name = "" ∨ name = ".") := not_or.mpr ⟨h.named.ne_empty, h.named.ne_here⟩
  obtain ⟨front, hpieces⟩ := List.getLast?_eq_some_iff.mp h.last
  have hfront := h.front
  rw [hpieces, List.dropLast_concat] at hfront
  rw [locate, if_neg h.nonempty, hpieces, follow_staysAtRoot_append hfront, follow,
    if_neg hskip, if_neg h.named.ne_up, List.nil_append]
  cases hchild : entries.lookup name with
  | none => simp [Node.get?, Node.child?, hchild]
  | some child =>
      cases child with
      | file bytes => simp [Node.get?, Node.child?, hchild]
      | folder below => simp [Node.get?, Node.child?, hchild, follow]
      | link target => exact (hlink target hchild).elim

theorem node_at_root {path : Path} {name : String} (h : IsAtRoot path name)
    {entries : List (String × Node)} {node : Node} (hnode : entries.lookup name = some node)
    (hlink : ∀ target, node ≠ .link target) :
    Disk.node ⟨.folder entries⟩ path = .ok node := by
  have hother : ∀ target, entries.lookup name ≠ some (.link target) := by
    intro target heq
    exact hlink target (Option.some.inj (hnode.symm.trans heq))
  rw [Disk.node, locate_at_root h hother, hnode]

/-- The one file of a disk is found by its name, and no other. -/
theorem locate_one_file {path : Path} {name : String} (h : IsAtRoot path name)
    (file : String) (bytes : ByteArray) :
    locate ⟨.folder [(file, .file bytes)]⟩ path =
      .ok (if name = file then .found [name] (.file bytes) else .absent [name]) := by
  by_cases hfile : name = file
  · rw [locate_at_root h (by simp [hfile])]
    simp [hfile]
  · have hne : (name == file) = false := by simpa using hfile
    rw [locate_at_root h (by simp [List.lookup_cons, hne])]
    simp [hfile, List.lookup_cons, hne]

theorem place?_one_file {path : Path} {name : String} (h : IsAtRoot path name)
    (file : String) (bytes : ByteArray) :
    Disk.place? ⟨.folder [(file, .file bytes)]⟩ path = some [name] := by
  rw [Disk.place?, locate_one_file h]
  split <;> rfl

theorem read_one_file {path : Path} {file : String} (h : IsAtRoot path file)
    (bytes : ByteArray) : Disk.read ⟨.folder [(file, .file bytes)]⟩ path = .ok bytes := by
  rw [read, Disk.node, locate_one_file h, if_pos rfl]

theorem node_one_file_of_ne {path : Path} {name file : String} (h : IsAtRoot path name)
    (hne : name ≠ file) (bytes : ByteArray) :
    Disk.node ⟨.folder [(file, .file bytes)]⟩ path = .error .noEntry := by
  rw [Disk.node, locate_one_file h, if_neg hne]

theorem isPresent_one_file_of_ne {path : Path} {name file : String} (h : IsAtRoot path name)
    (hne : name ≠ file) (bytes : ByteArray) :
    Disk.isPresent ⟨.folder [(file, .file bytes)]⟩ path = false := by
  rw [isPresent, node_one_file_of_ne h hne]

end Disk

end StylePrune
