import StylePrune.Proofs.Path.Components
import StylePrune.Proofs.Text.Search

/-!
# The end of a path

A normal path, absolute or not, that ends with a name has that name at the end of its
text.  So writing behind it lengthens the name, and leading on from it by a name puts
one more component at its end.  The extension of a path is read off its last name.
-/

namespace StylePrune.Path

open Component

theorem textOf_of_plain {cs : List Component} (h : ∀ c ∈ cs, IsPlain c) :
    textOf cs = String.intercalate "/" (cs.map Component.text) := by
  rcases cs with _ | ⟨c, cs⟩
  · rfl
  · cases h c List.mem_cons_self <;> rfl

theorem components_ofComponents_relative {cs : List Component} (h : ∀ c ∈ cs, IsPlain c) :
    (ofComponents cs).components = cs := by
  by_cases hne : cs = []
  · subst hne
    rfl
  have htext : (ofComponents cs).text.toList =
      ['/'].intercalate (cs.map fun c => c.text.toList) := by
    rw [ofComponents, textOf_of_plain h, String.toList_intercalate, List.map_map]
    rfl
  have hpieces : (ofComponents cs).pieces = cs.map fun c => c.text.toList := by
    rw [pieces_eq, htext, splitOn_intercalate_text h hne]
  have hlead : (ofComponents cs).lead? = none := by
    obtain ⟨c, rest, rfl⟩ := List.exists_cons_of_ne_nil hne
    obtain ⟨hempty, hhere⟩ := (h c List.mem_cons_self).text_ne
    rw [lead?, hpieces, List.map_cons]
    split
    · rename_i heq
      exact (hempty (List.cons.inj heq).1).elim
    · rename_i heq
      exact (hhere (List.cons.inj heq).1).elim
    · rfl
  rw [components, body, hlead, hpieces]
  exact componentsOfPieces_map_text h

theorem IsLead.components {lead cs : List Component} (hlead : IsLead lead)
    (h : ∀ c ∈ cs, IsPlain c) : (ofComponents (lead ++ cs)).components = lead ++ cs := by
  cases hlead with
  | root => exact components_ofComponents_root h
  | nothing => exact components_ofComponents_relative h

theorem IsLead.textOf_concat {lead cs : List Component} {c : Component}
    (hlead : IsLead lead) (h : ∀ d ∈ cs ++ [c], IsPlain d) (hne : cs ≠ []) :
    textOf (lead ++ (cs ++ [c])) = textOf (lead ++ cs) ++ "/" ++ c.text := by
  cases hlead with
  | root => exact Path.textOf_concat hne c
  | nothing =>
      rw [List.nil_append, List.nil_append, textOf_of_plain h,
        textOf_of_plain fun d hd => h d (List.mem_append_left _ hd), List.map_append,
        String.intercalate_append_of_ne_nil (by simpa using hne) (by simp)]
      simp [String.append_assoc]

/-- A component at the end of a path is written at the end of its text. -/
theorem IsLead.exists_textOf_concat {lead cs : List Component} (hlead : IsLead lead)
    (h : ∀ c ∈ cs, IsPlain c) :
    ∃ front, ∀ c, IsPlain c → textOf (lead ++ (cs ++ [c])) = front ++ c.text := by
  by_cases hne : cs = []
  · subst hne
    cases hlead with
    | root => exact ⟨"/", fun c _ => by simp [textOf]⟩
    | nothing =>
      exact ⟨"", fun c hc => by simp [textOf_of_plain (List.forall_mem_singleton.mpr hc)]⟩
  · refine ⟨textOf (lead ++ cs) ++ "/", fun c hc => hlead.textOf_concat ?_ hne⟩
    exact List.forall_mem_append.mpr ⟨h, List.forall_mem_singleton.mpr hc⟩

/-- A relative path begins with a `.`, or with nothing but its pieces. -/
theorem lead?_of_relative {p : Path} (h : p.isAbsolute = false) :
    p.lead? = none ∨ p.lead? = some .here := by
  rw [lead?, pieces_eq]
  cases htext : p.text.toList with
  | nil => exact Or.inl rfl
  | cons c rest =>
      have hc : c ≠ '/' := by
        rintro rfl
        rw [isAbsolute_iff.mpr ⟨rest, htext⟩] at h
        cases h
      rw [List.splitOn_cons_eq_if_modifyHead, if_neg (by simpa using hc)]
      cases hpieces : rest.splitOn '/' with
      | nil => exact (List.splitOn_ne_nil _ _ hpieces).elim
      | cons piece pieces =>
          rw [List.modifyHead_cons]
          split
          · rename_i heq
            cases (List.cons.inj heq).1
          · exact Or.inr rfl
          · exact Or.inl rfl

/-- The components of a relative path other than a `.` in front of it. -/
theorem exists_components_of_relative {p : Path} (h : p.isAbsolute = false) :
    ∃ cs, (p.components = cs ∨ p.components = .here :: cs) ∧
      componentsOfPieces p.pieces = cs ∧ ∀ c ∈ cs, IsPlain c := by
  refine ⟨componentsOfPieces p.pieces, ?_, rfl, fun c hc => ?_⟩
  · rcases lead?_of_relative h with hlead | hlead
    · exact Or.inl (by rw [components, body, hlead]; rfl)
    · refine Or.inr ?_
      have hpieces : ∃ rest, p.pieces = ['.'] :: rest := by
        rw [lead?] at hlead
        split at hlead
        · cases hlead
        · exact ⟨_, by assumption⟩
        · cases hlead
      obtain ⟨rest, hrest⟩ := hpieces
      rw [components, body, hlead, hrest]
      rfl
  · rw [pieces_eq] at hc
    exact isPlain_of_mem_componentsOfPieces hc

theorem isTail_normalComponents {p : Path} (h : p.isAbsolute = false) :
    IsTail (normalComponents p.components) := by
  obtain ⟨cs, hcomponents, -, hplain⟩ := exists_components_of_relative h
  obtain ⟨tail, hfold, htail⟩ := exists_foldl_pushComponent .nothing isTail_nil hplain
  have hnormal : normalComponents p.components = tail := by
    -- a `.` in front leaves no trace
    rcases hcomponents with heq | heq <;> rw [heq] <;> exact List.reverse_eq_iff.mpr hfold
  rw [hnormal]
  exact htail

/-- What normalizing leaves of any path. -/
theorem exists_lead_normalize (p : Path) :
    ∃ lead cs, IsLead lead ∧ IsTail cs ∧ p.normalize = ofComponents (lead ++ cs) := by
  cases h : p.isAbsolute with
  | true =>
      obtain ⟨cs, hcs, htail⟩ := exists_normalComponents h
      exact ⟨[.root], cs, .root, htail, congrArg ofComponents hcs⟩
  | false => exact ⟨[], _, .nothing, isTail_normalComponents h, rfl⟩

/-! ## Paths that end with a name -/

theorem isName_of_mem_components {p : Path} {name : String}
    (h : Component.name name ∈ p.components) : IsName name := by
  have hplain : ∀ cs : List Component, (∀ c ∈ cs, IsPlain c) → Component.name name ∈ cs →
      IsName name := by
    intro cs hcs hmem
    cases hcs _ hmem with
    | name hname => exact hname
  cases hp : p.isAbsolute with
  | true =>
      obtain ⟨rest, hrest⟩ := isAbsolute_iff.mp hp
      rw [components_of_absolute hrest] at h
      refine hplain (componentsOfPieces (rest.splitOn '/'))
        (fun c hc => isPlain_of_mem_componentsOfPieces hc) ?_
      simpa using h
  | false =>
      obtain ⟨cs, hcomponents, -, hcs⟩ := exists_components_of_relative hp
      rcases hcomponents with heq | heq <;> rw [heq] at h
      · exact hplain cs hcs h
      · exact hplain cs hcs (by simpa using h)

theorem fileName?_eq_some_iff {p : Path} {name : String} :
    p.fileName? = some name ↔ p.components.getLast? = some (.name name) := by
  rw [fileName?]
  split
  · rename_i s hs
    rw [hs]
    simp
  · rename_i hnone
    constructor
    · intro h
      cases h
    · intro h
      exact (hnone name h).elim

/-- A normal path, absolute or relative, with a name at its end. -/
structure EndsIn (p : Path) (lead front : List Component) (name : String) : Prop where
  isLead : IsLead lead
  isPlain : ∀ c ∈ front, IsPlain c
  isName : IsName name
  eq : p = ofComponents (lead ++ (front ++ [.name name]))

theorem exists_endsIn {p : Path} (hnormal : p.normalize = p) {name : String}
    (hname : p.fileName? = some name) : ∃ lead front, EndsIn p lead front name := by
  obtain ⟨lead, cs, hlead, htail, heq⟩ := exists_lead_normalize p
  rw [hnormal] at heq
  have hlast := fileName?_eq_some_iff.mp hname
  have hisName := isName_of_mem_components (List.mem_of_getLast? hlast)
  rw [heq, hlead.components htail.plain] at hlast
  rcases List.eq_nil_or_concat' cs with rfl | ⟨front, c, rfl⟩
  · cases hlead <;> simp at hlast
  · obtain rfl : c = .name name := by simpa using hlast
    exact ⟨lead, front, hlead, fun d hd => htail.plain d (by simp [hd]), hisName, heq⟩

namespace EndsIn

variable {p : Path} {lead front : List Component} {name : String}

theorem forall_isPlain (h : EndsIn p lead front name) :
    ∀ c ∈ front ++ [.name name], IsPlain c :=
  List.forall_mem_append.mpr ⟨h.isPlain, List.forall_mem_singleton.mpr (.name h.isName)⟩

theorem components (h : EndsIn p lead front name) :
    p.components = lead ++ (front ++ [.name name]) := by
  rw [h.eq, h.isLead.components h.forall_isPlain]

theorem fileName? (h : EndsIn p lead front name) : p.fileName? = some name := by
  rw [fileName?_eq_some_iff, h.components]
  simp

/-- What is written behind a path that ends with a name lengthens the name. -/
theorem append (h : EndsIn p lead front name) {more : String}
    (hname : IsName (name ++ more)) :
    EndsIn ⟨p.text ++ more⟩ lead front (name ++ more) := by
  refine ⟨h.isLead, h.isPlain, hname, ?_⟩
  obtain ⟨text, htext⟩ := h.isLead.exists_textOf_concat h.isPlain
  rw [h.eq, ofComponents, ofComponents, htext _ (.name h.isName), htext _ (.name hname)]
  simp [Component.text, String.append_assoc]

/-- A name is appended to a path that ends with a name. -/
theorem join (h : EndsIn p lead front name) {more : String} (hmore : IsName more) :
    EndsIn (p.join ⟨more⟩) lead (front ++ [.name name]) more := by
  refine ⟨h.isLead, h.forall_isPlain, hmore, ?_⟩
  obtain ⟨text, htext⟩ := h.isLead.exists_textOf_concat h.isPlain
  have hp : p.text = text ++ name := by
    rw [h.eq]
    exact htext _ (.name h.isName)
  have hlist : name.toList ≠ [] := fun hnil => h.isName.ne_empty (String.toList_inj.mp hnil)
  have hempty : p.text ≠ "" := by
    intro heq
    rw [heq] at hp
    have := congrArg String.toList hp
    simp_all
  have hlast : p.text.toList.getLast? ≠ some '/' := by
    rw [hp, String.toList_append, List.getLast?_append_of_ne_nil _ hlist]
    exact fun hlast => h.isName.noSlash (List.mem_of_getLast? hlast)
  have hall : ∀ d ∈ front ++ [Component.name name] ++ [.name more], IsPlain d :=
    List.forall_mem_append.mpr
      ⟨h.forall_isPlain, List.forall_mem_singleton.mpr (.name hmore)⟩
  rw [Path.join, isAbsolute_eq_false_of_isName hmore, if_neg (by simp),
    if_neg (by simp [hempty, hlast]), ofComponents,
    h.isLead.textOf_concat hall (by simp)]
  nth_rewrite 1 [h.eq]
  rfl

end EndsIn

/-! ## Leading on from any path -/

theorem components_of_lead_root {p : Path} {piece : List Char} {rest : List (List Char)}
    (h : p.pieces = [] :: piece :: rest) :
    p.components = .root :: componentsOfPieces (piece :: rest) := by
  have hlead : p.lead? = some .root := by rw [lead?, h]
  rw [components, body, hlead, h]
  rfl

theorem components_of_lead_here {p : Path} {rest : List (List Char)}
    (h : p.pieces = ['.'] :: rest) : p.components = .here :: componentsOfPieces rest := by
  have hlead : p.lead? = some .here := by
    rw [lead?, h]
    rfl
  rw [components, body, hlead, h]
  rfl

theorem components_of_lead_none {p : Path} {first : List Char} {rest : List (List Char)}
    (h : p.pieces = first :: rest) (hempty : first ≠ []) (hhere : first ≠ ['.']) :
    p.components = componentsOfPieces (first :: rest) := by
  have hlead : p.lead? = none := by
    rw [lead?, h]
    split
    · rename_i heq
      exact (hempty (List.cons.inj heq).1).elim
    · rename_i heq
      exact (hhere (List.cons.inj heq).1).elim
    · rfl
  rw [components, body, hlead, h]
  rfl

theorem componentsOfPieces_concat_name {name : String} (h : IsName name)
    (pieces : List (List Char)) :
    componentsOfPieces (pieces ++ [name.toList]) =
      componentsOfPieces pieces ++ [.name name] := by
  have hpiece : ofPiece? name.toList = some (.name name) := (IsPlain.name h).ofPiece?
  rw [componentsOfPieces_append]
  exact congrArg (componentsOfPieces pieces ++ ·) (List.filterMap_cons_some hpiece)

/-- A name behind the pieces of a path is a component behind its components. -/
theorem components_concat_name {p q : Path} {first : List Char} {rest : List (List Char)}
    {name : String} (hname : IsName name)
    (hp : p.pieces = first :: rest ∧ (first = [] → rest ≠ []) ∨
      p.pieces = first :: (rest ++ [[]]))
    (hq : q.pieces = first :: (rest ++ [name.toList])) :
    q.components = p.components ++ [.name name] := by
  by_cases hempty : first = []
  · subst hempty
    have hroot : ∀ pieces : List (List Char), pieces ≠ [] →
        ∀ r : Path, r.pieces = [] :: pieces →
        r.components = .root :: componentsOfPieces pieces := by
      intro pieces hne r hr
      obtain ⟨piece, pieces, rfl⟩ := List.exists_cons_of_ne_nil hne
      exact components_of_lead_root hr
    rw [hroot _ (by simp) q hq, componentsOfPieces_concat_name hname]
    rcases hp with ⟨hp, hne⟩ | hp
    · rw [hroot _ (hne rfl) p hp, List.cons_append]
    · rw [hroot _ (by simp) p hp, componentsOfPieces_concat_nil, List.cons_append]
  by_cases hhere : first = ['.']
  · subst hhere
    rw [components_of_lead_here hq, componentsOfPieces_concat_name hname]
    rcases hp with ⟨hp, -⟩ | hp
    · rw [components_of_lead_here hp, List.cons_append]
    · rw [components_of_lead_here hp, componentsOfPieces_concat_nil, List.cons_append]
  · rw [components_of_lead_none hq hempty hhere, ← List.cons_append,
      componentsOfPieces_concat_name hname]
    rcases hp with ⟨hp, -⟩ | hp
    · rw [components_of_lead_none hp hempty hhere]
    · rw [components_of_lead_none hp hempty hhere, ← List.cons_append,
        componentsOfPieces_concat_nil]

/-- A name that is appended to a path is one more component, however the path is written. -/
theorem components_join_name (p : Path) {name : String} (hname : IsName name) :
    (p.join ⟨name⟩).components = p.components ++ [.name name] := by
  have hpiece : name.toList.splitOn '/' = [name.toList] :=
    List.splitOn_eq_singleton hname.noSlash
  rw [join, isAbsolute_eq_false_of_isName hname, if_neg (by simp)]
  by_cases hempty : p.text = ""
  · obtain ⟨text⟩ := p
    subst hempty
    obtain ⟨hnil, hhere⟩ := (IsPlain.name hname).text_ne
    have hone : (⟨"" ++ name⟩ : Path).pieces = [name.toList] := by
      rw [pieces_eq, String.empty_append, hpiece]
    rw [if_pos (Or.inl rfl), components_of_lead_none hone hnil hhere]
    exact componentsOfPieces_concat_name hname []
  by_cases hslash : p.text.toList.getLast? = some '/'
  · obtain ⟨text, htext⟩ := List.getLast?_eq_some_iff.mp hslash
    obtain ⟨first, rest, hpieces⟩ :=
      List.exists_cons_of_ne_nil (List.splitOn_ne_nil '/' text)
    have hp : p.pieces = first :: (rest ++ [[]]) := by
      rw [pieces_eq, htext, List.splitOn_append_cons_self, hpieces]
      rfl
    have hq : (⟨p.text ++ name⟩ : Path).pieces = first :: (rest ++ [name.toList]) := by
      rw [pieces_eq, String.toList_append, htext, List.append_assoc, List.singleton_append,
        List.splitOn_append_cons_self, hpieces, hpiece]
      rfl
    rw [if_pos (Or.inr hslash)]
    exact components_concat_name hname (Or.inr hp) hq
  · obtain ⟨first, rest, hpieces⟩ :=
      List.exists_cons_of_ne_nil (List.splitOn_ne_nil '/' p.text.toList)
    have hp : p.pieces = first :: rest := by rw [pieces_eq, hpieces]
    have hrest : first = [] → rest ≠ [] := by
      rintro rfl rfl
      have htext : ['/'].intercalate (p.text.toList.splitOn '/') = p.text.toList :=
        List.intercalate_splitOn _
      rw [hpieces] at htext
      exact hempty (String.toList_inj.mp htext.symm)
    have hq : (⟨p.text ++ "/" ++ name⟩ : Path).pieces =
        first :: (rest ++ [name.toList]) := by
      have htext : (p.text ++ "/" ++ name).toList =
          p.text.toList ++ '/' :: name.toList := by simp
      rw [pieces_eq, htext, List.splitOn_append_cons_self, hpieces, hpiece]
      rfl
    rw [if_neg (not_or.mpr ⟨hempty, hslash⟩)]
    exact components_concat_name hname (Or.inl ⟨hp, hrest⟩) hq

/-! ## Extensions -/

/-- The part of a name behind its last dot is its extension, unless nothing stands in
front. -/
theorem extension?_eq_some_iff {p : Path} {ext : String} :
    p.extension? = some ext ↔
      ∃ stem, stem ≠ "" ∧ '.' ∉ ext.toList ∧ p.fileName? = some (stem ++ "." ++ ext) := by
  have hiff : p.extension? = some ext ↔ ∃ name, p.fileName? = some name ∧
      ∃ stem, Text.splitLast ['.'] name.toList = some (stem, ext.toList) ∧ stem ≠ [] := by
    simp only [extension?, Option.bind_eq_bind, Option.bind_eq_some_iff, Prod.exists]
    refine exists_congr fun name => and_congr_right fun _ => exists_congr fun stem => ?_
    constructor
    · rintro ⟨back, hsplit, hext⟩
      split at hext
      · cases hext
      · rename_i hstem
        obtain rfl := Option.some.inj hext
        exact ⟨by simpa using hsplit, hstem⟩
    · rintro ⟨hsplit, hstem⟩
      exact ⟨ext.toList, hsplit, by simp [hstem]⟩
  rw [hiff]
  constructor
  · rintro ⟨name, hname, stem, hsplit, hstem⟩
    obtain ⟨heq, hdot⟩ := Text.splitLast_singleton_iff.mp hsplit
    refine ⟨String.ofList stem, by simpa using hstem, hdot, ?_⟩
    rw [hname, Option.some.injEq, ← String.toList_inj, heq]
    simp
  · rintro ⟨stem, hstem, hdot, hname⟩
    refine ⟨_, hname, stem.toList, Text.splitLast_singleton_iff.mpr ⟨by simp, hdot⟩, ?_⟩
    simpa using hstem

end StylePrune.Path
