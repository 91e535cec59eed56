import StylePrune.Import.Lines
import StylePrune.Proofs.Import.Matching
import StylePrune.Proofs.Text.Word

/-!
# Plain imports

Imports as a formatter prints them: a default name, a braced list or a namespace between
`import` and `from`, a quoted specifier, and one import behind the other.  What such a
clause binds is read off its parts.  The reader of clauses finds the same names in the
printed text (`Clause.clauseNames_append`), whatever the names are; `as` and `from` are
names too.
-/

namespace StylePrune.Import

/-! ## Parts of an import -/

/-- An identifier of ASCII. The word `type` is not taken for a name. -/
structure Identifier where
  first : Char
  others : List Char
  first_wordStart : Literal.isWordStart first = true
  others_wordPart : ∀ c ∈ others, Literal.isWordPart c = true
  ne_type : first :: others ≠ "type".toList

def Identifier.chars (name : Identifier) : List Char :=
  name.first :: name.others

/-- An identifier, with one check for all that makes it one. -/
def Identifier.of (first : Char) (others : String)
    (h : (Literal.isWordStart first && others.toList.all Literal.isWordPart &&
      decide (first :: others.toList ≠ "type".toList)) = true) : Identifier where
  first := first
  others := others.toList
  first_wordStart := by
    simp only [Bool.and_eq_true] at h
    exact h.1.1
  others_wordPart := by
    simp only [Bool.and_eq_true] at h
    exact List.all_eq_true.mp h.1.2
  ne_type := by
    simp only [Bool.and_eq_true] at h
    exact of_decide_eq_true h.2

def Identifier.text (name : Identifier) : String :=
  String.ofList name.chars

/-- White space, line breaks included. -/
abbrev Blanks :=
  { space : List Char // ∀ c ∈ space, Text.isBlank c = true }

/-! The fixed words of an import, with the spaces next to them. -/

def typeWord : List Char :=
  "type ".toList

def asWord : List Char :=
  " as ".toList

def importWord : List Char :=
  "import ".toList

def fromWord : List Char :=
  " from ".toList

def commaWord : List Char :=
  ", ".toList

def starWord : List Char :=
  "* as ".toList

def noBlanks : Blanks :=
  ⟨[], List.forall_mem_nil _⟩

def oneSpace : Blanks :=
  ⟨[' '], Text.isBlank_of_mem_space⟩

@[simp] theorem noBlanks_val : noBlanks.val = [] :=
  rfl

@[simp] theorem oneSpace_val : oneSpace.val = [' '] :=
  rfl

/-- An item of a braced list. -/
inductive Item where
  | plain (name : Identifier)
  | renamed (name other : Identifier)
  | typeOnly (name : Identifier)

def Item.chars : Item → List Char
  | .plain name => name.chars
  | .renamed name other => name.chars ++ asWord ++ other.chars
  | .typeOnly name => typeWord ++ name.chars

/-- The name that an item binds as a value. -/
def Item.local? : Item → Option String
  | .plain name => some name.text
  | .renamed _ other => some other.text
  | .typeOnly _ => none

/-- Items with a comma between each two of them, and maybe one behind the last. -/
def itemChars (trailing : Bool) : List (Blanks × Item) → List Char
  | [] => []
  | (space, item) :: items =>
    space.val ++ item.chars ++
      if items.isEmpty && !trailing then [] else ',' :: itemChars trailing items

/-- What may stand behind a default name, or alone: a braced list or a namespace. -/
inductive Group where
  /-- A braced list; white space stands in front of every item and of the closing brace. -/
  | braces (items : List (Blanks × Item)) (trailing : Bool) (closing : Blanks)
  | star (name : Identifier)

def Group.chars : Group → List Char
  | .braces items trailing closing =>
    '{' :: (itemChars trailing items ++ closing.val ++ ['}'])
  | .star name => starWord ++ name.chars

/-- The names that a group binds as values. -/
def Group.locals : Group → List String
  | .braces items _ _ => items.filterMap fun (_, item) => item.local?
  | .star name => [name.text]

/-- What stands between `import` and `from`. -/
inductive Clause where
  | default (name : Identifier)
  | alone (group : Group)
  | both (name : Identifier) (group : Group)

def Clause.chars : Clause → List Char
  | .default name => name.chars
  | .alone group => group.chars
  | .both name group => name.chars ++ commaWord ++ group.chars

/-- The names that a clause binds as values. -/
def Clause.locals : Clause → List String
  | .default name => [name.text]
  | .alone group => group.locals
  | .both name group => name.text :: group.locals

/-- The ways in which the line of an import ends. -/
def endings : List String :=
  ["\n", ";\n", "\r\n", ";\r\n"]

/-- A quoted specifier up to the end of its line. -/
structure Source where
  quote : Char
  specifier : List Char
  ending : String
  quote_isQuote : isQuote quote = true
  specifier_ne_nil : specifier ≠ []
  specifier_noQuote : ∀ c ∈ specifier, isQuote c = false
  newline_notMem : '\n' ∉ specifier
  ending_mem : ending ∈ endings

/-- A source, with one check for all that makes it one. -/
def Source.of (quote : Char) (specifier ending : String)
    (h : (isQuote quote && decide (specifier.toList ≠ []) &&
      specifier.toList.all (!isQuote ·) && decide ('\n' ∉ specifier.toList) &&
      decide (ending ∈ endings)) = true) : Source where
  quote := quote
  specifier := specifier.toList
  ending := ending
  quote_isQuote := by
    simp only [Bool.and_eq_true] at h
    exact h.1.1.1.1
  specifier_ne_nil := by
    simp only [Bool.and_eq_true] at h
    exact of_decide_eq_true h.1.1.1.2
  specifier_noQuote := by
    simp only [Bool.and_eq_true] at h
    simpa using h.1.1.2
  newline_notMem := by
    simp only [Bool.and_eq_true] at h
    exact of_decide_eq_true h.1.2
  ending_mem := by
    simp only [Bool.and_eq_true] at h
    exact of_decide_eq_true h.2

def Source.chars (source : Source) : List Char :=
  source.quote :: (source.specifier ++ source.quote :: source.ending.toList)

inductive Declaration where
  | binding (clause : Clause) (source : Source)
  | typeOnly (clause : Clause) (source : Source)
  | sideEffect (source : Source)

def Declaration.chars : Declaration → List Char
  | .binding clause source => importWord ++ clause.chars ++ fromWord ++ source.chars
  | .typeOnly clause source =>
    importWord ++ typeWord ++ clause.chars ++ fromWord ++ source.chars
  | .sideEffect source => importWord ++ source.chars

/-- What a declaration means: its specifier and the names it binds as values, if it binds
any. -/
def Declaration.directive? : Declaration → Option Directive
  | .binding clause source =>
    if clause.locals = [] then none
    else some ⟨String.ofList source.specifier, Names.ofList clause.locals⟩
  | .typeOnly _ _ => none
  | .sideEffect _ => none

/-- Declarations one behind the other. -/
def printed (declarations : List Declaration) : List Char :=
  declarations.flatMap Declaration.chars

/-! ## Characters of names and items -/

namespace Identifier

variable (name : Identifier)

theorem forall_chars : ∀ c ∈ name.chars, Literal.isWordPart c = true := by
  intro c hc
  rcases List.mem_cons.mp hc with rfl | hc
  · exact Text.isWordPart_of_isWordStart name.first_wordStart
  · exact name.others_wordPart c hc

theorem notMem_chars {c : Char} (h : Literal.isWordPart c = false) : c ∉ name.chars := by
  intro hc
  rw [name.forall_chars c hc] at h
  cases h

theorem notComma : ∀ c ∈ name.chars, (c == ',') = false := by
  intro c hc
  exact beq_eq_false_iff_ne.mpr fun heq =>
    name.notMem_chars (c := ',') (by decide) (heq ▸ hc)

theorem isBlank_eq_false {c : Char} (hc : c ∈ name.chars) : Text.isBlank c = false := by
  by_contra hblank
  have hpart := Text.isWordPart_eq_false_of_isBlank (by simpa using hblank)
  exact name.notMem_chars hpart hc

theorem isTight : Text.IsTight name.chars where
  ne_nil := List.cons_ne_nil _ _
  head _ hc := name.isBlank_eq_false (List.mem_of_head? hc)
  last _ hc := name.isBlank_eq_false (List.mem_of_getLast? hc)

/-- A name is read as itself, whatever white space stands around it. -/
theorem name?_append (before after : Blanks) :
    Directive.name? (before.val ++ (name.chars ++ after.val)) = some name.text := by
  have hclass : name.chars.all Directive.isNameChar = true := by
    refine List.all_eq_true.mpr fun c hc => ?_
    exact Text.of_isWordPart (by decide +kernel) (name.forall_chars c hc)
  have hne := name.isTight.ne_nil
  rw [Directive.name?, name.isTight.trim_append before.2 after.2]
  exact if_pos ⟨hne, hclass⟩

theorem name?_chars : Directive.name? name.chars = some name.text := by
  simpa using name.name?_append noBlanks noBlanks

/-- No name is read as the word `type`. -/
theorem type_append_ne {b : Char} {behind rest : List Char}
    (hb : Literal.isWordPart b = false)
    (hrest : ∀ c, rest.head? = some c → Literal.isWordPart c = false) :
    "type".toList ++ b :: behind ≠ name.chars ++ rest := by
  intro heq
  have htype : ∀ c ∈ "type".toList, Literal.isWordPart c = true :=
    Text.forall_mem_of_all (by decide)
  have hword := congrArg (List.takeWhile Literal.isWordPart) heq
  rw [Text.takeWhile_append_eq htype (by simpa using hb),
    Text.takeWhile_append_eq name.forall_chars hrest] at hword
  exact name.ne_type hword.symm

theorem isPrefixOf_type_append {rest : List Char}
    (hrest : ∀ c, rest.head? = some c → Literal.isWordPart c = false) :
    "type ".toList.isPrefixOf (name.chars ++ rest) = false := by
  refine Bool.eq_false_iff.mpr fun h => ?_
  obtain ⟨behind, hbehind⟩ := List.isPrefixOf_iff_prefix.mp h
  have hspace : Literal.isWordPart ' ' = false := by decide
  exact name.type_append_ne hspace hrest hbehind

end Identifier

/-! ## Items of a braced list -/

namespace Item

theorem isTight : ∀ item : Item, Text.IsTight item.chars
  | .plain name => name.isTight
  | .renamed name other => name.isTight.append other.isTight _
  | .typeOnly name => by
      have htype : Text.IsTight "type".toList := Text.isTight_of_ends rfl rfl
      exact htype.append name.isTight [' ']

/-- An item is made of names and white space. -/
theorem forall_chars : ∀ (item : Item), ∀ c ∈ item.chars,
    Literal.isWordPart c = true ∨ Text.isBlank c = true
  | .plain name, c, hc => Or.inl (name.forall_chars c hc)
  | .renamed name other, c, hc => by
      have has : ∀ c ∈ asWord, Literal.isWordPart c = true ∨ Text.isBlank c = true :=
        Text.forall_mem_of_all (by decide)
      rw [chars, List.mem_append, List.mem_append] at hc
      rcases hc with (hc | hc) | hc
      · exact Or.inl (name.forall_chars c hc)
      · exact has c hc
      · exact Or.inl (other.forall_chars c hc)
  | .typeOnly name, c, hc => by
      have htype : ∀ c ∈ typeWord, Literal.isWordPart c = true ∨ Text.isBlank c = true :=
        Text.forall_mem_of_all (by decide)
      rcases List.mem_append.mp hc with hc | hc
      · exact htype c hc
      · exact Or.inl (name.forall_chars c hc)

/-- An item is read as what it binds, whatever white space stands around it. -/
theorem itemName?_append (item : Item) (before after : Blanks) :
    Directive.itemName? (before.val ++ (item.chars ++ after.val)) = item.local? := by
  have htrim := item.isTight.trim_append before.2 after.2
  simp only [Directive.itemName?, htrim]
  cases item with
  | plain name =>
      have hblank : ' ' ∉ name.chars := name.notMem_chars (by decide)
      have htype : "type ".toList.isPrefixOf name.chars = false := by
        have hprefix : "type ".toList.isPrefixOf (name.chars ++ []) = false :=
          name.isPrefixOf_type_append (by simp)
        rwa [List.append_nil] at hprefix
      have hsplit : Text.splitLast " as ".toList name.chars = none :=
        Text.splitLast_eq_none_of_notMem (c := ' ') (by decide) hblank
      simp only [chars, htype, hsplit, name.name?_chars]
      rfl
  | renamed name other =>
      have htype : "type ".toList.isPrefixOf (renamed name other).chars = false := by
        rw [chars, List.append_assoc]
        refine name.isPrefixOf_type_append fun c hc => ?_
        obtain rfl : ' ' = c := Option.some.inj hc
        decide
      have hsplit : Text.splitLast " as ".toList (renamed name other).chars =
          some (name.chars, other.chars) := by
        change Text.splitLast (" as".toList ++ [' '])
          (name.chars ++ (" as".toList ++ [' ']) ++ other.chars) = _
        exact Text.splitLast_append_of_notMem (other.notMem_chars (by decide)) name.chars
      simp only [htype, hsplit, other.name?_chars]
      rfl
  | typeOnly name => rfl

end Item

/-! ## What stands in front of the braces -/

/-- A default name is read as itself. -/
theorem Identifier.headName?_append (name : Identifier) (before : Blanks) :
    Directive.headName? (before.val ++ name.chars) = some name.text := by
  have htrim := name.isTight.trim_append_left before.2
  have hstar : ∀ rest, name.chars ≠ '*' :: rest := by
    intro rest heq
    exact name.notMem_chars (c := '*') (by decide) (by simp [heq])
  rw [Directive.headName?, htrim]
  split
  · rename_i rest heq
    exact (hstar rest heq).elim
  · exact name.name?_chars

theorem Identifier.isTight_star (name : Identifier) :
    Text.IsTight (starWord ++ name.chars) := by
  have hstar : Text.IsTight ['*'] := Text.isTight_of_ends rfl rfl
  exact hstar.append name.isTight asWord

/-- A namespace is read as its name. -/
theorem Identifier.headName?_star (name : Identifier) (before : Blanks) :
    Directive.headName? (before.val ++ (starWord ++ name.chars)) = some name.text := by
  have has : Text.IsTight ("as".toList ++ [' '] ++ name.chars) := by
    have hword : Text.IsTight "as".toList := Text.isTight_of_ends rfl rfl
    exact hword.append name.isTight [' ']
  have htrim := name.isTight_star.trim_append_left before.2
  have hinner := has.trim_append_left oneSpace.2
  rw [oneSpace_val] at hinner
  have hcons : starWord ++ name.chars =
      '*' :: ([' '] ++ ("as".toList ++ [' '] ++ name.chars)) := rfl
  rw [Directive.headName?, htrim, hcons]
  simp only [hinner]
  have hname := name.name?_append oneSpace noBlanks
  rw [noBlanks_val, List.append_nil] at hname
  exact hname

/-- White space binds nothing. -/
theorem headName?_of_blank {space : List Char} (h : ∀ c ∈ space, Text.isBlank c = true) :
    Directive.headName? space = none := by
  rw [Directive.headName?, Text.trim_eq_nil_iff.mpr h]
  rfl

theorem itemName?_of_blank {space : List Char} (h : ∀ c ∈ space, Text.isBlank c = true) :
    Directive.itemName? space = none := by
  rw [Directive.itemName?, Text.trim_eq_nil_iff.mpr h]
  rfl

/-! ## Braced lists -/

theorem Item.notMem_chars {c : Char} (item : Item) (hpart : Literal.isWordPart c = false)
    (hblank : Text.isBlank c = false) : c ∉ item.chars := by
  intro hc
  rcases item.forall_chars c hc with h | h
  · rw [h] at hpart
    cases hpart
  · rw [h] at hblank
    cases hblank

theorem forall_itemChars {trailing : Bool} {items : List (Blanks × Item)} :
    ∀ c ∈ itemChars trailing items,
      Literal.isWordPart c = true ∨ Text.isBlank c = true ∨ c = ',' := by
  induction items with
  | nil => simp [itemChars]
  | cons head items ih =>
      obtain ⟨space, item⟩ := head
      have hitem : ∀ c ∈ space.val ++ item.chars,
          Literal.isWordPart c = true ∨ Text.isBlank c = true ∨ c = ',' := by
        intro c hc
        rcases List.mem_append.mp hc with hc | hc
        · exact Or.inr (Or.inl (space.2 c hc))
        · exact (item.forall_chars c hc).imp id Or.inl
      intro c hc
      rcases List.mem_append.mp hc with hc | hc
      · exact hitem c hc
      · split at hc
        · cases hc
        · rcases List.mem_cons.mp hc with rfl | hc
          · exact Or.inr (Or.inr rfl)
          · exact ih c hc

theorem blanks_notComma (space : Blanks) : ∀ c ∈ space.val, (c == ',') = false := by
  intro c hc
  refine beq_eq_false_iff_ne.mpr fun heq => ?_
  exact absurd (space.2 c hc) (by rw [heq]; decide)

theorem Item.notComma (space : Blanks) (item : Item) :
    ∀ c ∈ space.val ++ item.chars, (c == ',') = false := by
  refine List.forall_mem_append.mpr ⟨blanks_notComma space, fun c hc => ?_⟩
  refine beq_eq_false_iff_ne.mpr fun heq => ?_
  exact item.notMem_chars (c := ',') (by decide) (by decide) (heq ▸ hc)

/-- What the first element of a list gives stands in front of what the others give. -/
theorem filterMap_cons_toList {α β : Type} (f : α → Option β) (a : α) (l : List α) :
    (a :: l).filterMap f = (f a).toList ++ l.filterMap f := by
  cases h : f a <;> simp [h]

/-- The items of a list are read one by one. -/
theorem filterMap_itemName?_pieces (trailing : Bool) (items : List (Blanks × Item))
    (closing : Blanks) :
    (Text.pieces (· == ',') (itemChars trailing items ++ closing.val)).filterMap
      Directive.itemName? = items.filterMap fun (_, item) => item.local? := by
  have hclosing : (Text.pieces (· == ',') closing.val).filterMap Directive.itemName? =
      [] := by
    rw [Text.pieces_of_forall (blanks_notComma closing), List.filterMap_cons_none
      (itemName?_of_blank closing.2), List.filterMap_nil]
  induction items with
  | nil => exact hclosing
  | cons head items ih =>
      obtain ⟨space, item⟩ := head
      rw [itemChars, filterMap_cons_toList]
      split
      · rename_i hlast
        obtain ⟨rfl, -⟩ : items = [] ∧ trailing = false := by simpa using hlast
        have hpiece : ∀ c ∈ space.val ++ item.chars ++ closing.val, (c == ',') = false :=
          List.forall_mem_append.mpr ⟨item.notComma space, blanks_notComma closing⟩
        rw [List.append_nil, Text.pieces_of_forall hpiece, filterMap_cons_toList,
          List.append_assoc, item.itemName?_append]
        rfl
      · have hname : Directive.itemName? (space.val ++ item.chars) = item.local? := by
          simpa using item.itemName?_append space noBlanks
        rw [List.append_assoc, List.cons_append,
          Text.pieces_append_cons (item.notComma space) (beq_self_eq_true ','),
          filterMap_cons_toList, hname, ih]

/-! ## Clauses -/

/-- The part of a group in front of its brace. -/
def Group.head : Group → List Char
  | .braces _ _ _ => []
  | .star name => starWord ++ name.chars

/-- The inside of the braces of a group. -/
def Group.inside? : Group → Option (List Char)
  | .braces items trailing closing => some (itemChars trailing items ++ closing.val)
  | .star _ => none

theorem splitBraces_braces {front inside : List Char} (hfront : '{' ∉ front)
    (hinside : '}' ∉ inside) :
    Directive.splitBraces (front ++ '{' :: (inside ++ ['}'])) = (front, some inside) := by
  have hsplit := Text.splitFirst_singleton_iff.mpr
    ⟨(rfl : front ++ '{' :: (inside ++ ['}']) = _), hfront⟩
  have hstop : (inside ++ ['}']).takeWhile (· != '}') = inside := by
    refine Text.takeWhile_append_eq ?_ (by simp)
    intro c hc
    simpa using fun heq : c = '}' => hinside (heq ▸ hc)
  simp only [Directive.splitBraces, hsplit, hstop]

theorem splitBraces_of_notMem {text : List Char} (h : '{' ∉ text) :
    Directive.splitBraces text = (text, none) := by
  have hsplit : Text.splitFirst ['{'] text = none :=
    Text.splitFirst_eq_none_of_notMem (List.mem_singleton_self _) h
  simp only [Directive.splitBraces, hsplit]

/-- The braces of a group are found behind any text that has none. -/
theorem Group.splitBraces_append {front : List Char} (h : '{' ∉ front) (group : Group) :
    Directive.splitBraces (front ++ group.chars) =
      (front ++ group.head, group.inside?) := by
  cases group with
  | braces items trailing closing =>
      have hinside : '}' ∉ itemChars trailing items ++ closing.val := by
        intro hmem
        rcases List.mem_append.mp hmem with hmem | hmem
        · exact absurd (forall_itemChars _ hmem) (by decide)
        · exact absurd (closing.2 _ hmem) (by decide)
      rw [head, List.append_nil]
      exact splitBraces_braces h hinside
  | star name =>
      refine splitBraces_of_notMem fun hmem => ?_
      have hstar : '{' ∉ starWord := by decide
      have hname : '{' ∉ name.chars := name.notMem_chars (by decide)
      simp [chars, h, hstar, hname] at hmem

/-- The names of a group are read, whatever white space stands in front of it. -/
theorem Group.filterMap_pieces (group : Group) (before : Blanks) :
    (Text.pieces (· == ',') (before.val ++ group.head)).filterMap Directive.headName? ++
      ((group.inside?.map (Text.pieces (· == ','))).getD []).filterMap Directive.itemName? =
        group.locals := by
  cases group with
  | braces items trailing closing =>
      rw [head, List.append_nil, Text.pieces_of_forall (blanks_notComma before),
        List.filterMap_cons_none (headName?_of_blank before.2), List.filterMap_nil]
      exact filterMap_itemName?_pieces trailing items closing
  | star name =>
      have hstar : ∀ c ∈ starWord, (c == ',') = false := Text.forall_mem_of_all (by decide)
      rw [head, Text.pieces_of_forall (List.forall_mem_append.mpr
        ⟨blanks_notComma before, List.forall_mem_append.mpr ⟨hstar, name.notComma⟩⟩)]
      simp [name.headName?_star before, inside?, locals]

theorem Group.isTight : ∀ group : Group, Text.IsTight group.chars
  | .braces items trailing closing => by
      have hopen : Text.IsTight ['{'] := Text.isTight_of_ends rfl rfl
      have hclose : Text.IsTight ['}'] := Text.isTight_of_ends rfl rfl
      simpa [chars] using hopen.append hclose (itemChars trailing items ++ closing.val)
  | .star name => name.isTight_star

theorem Clause.isTight : ∀ clause : Clause, Text.IsTight clause.chars
  | .default name => name.isTight
  | .alone group => group.isTight
  | .both name group => name.isTight.append group.isTight _

/-- What a clause binds is read back from its text. -/
theorem Clause.clauseNames_append (clause : Clause) (after : Blanks) :
    Directive.clauseNames (clause.chars ++ after.val) = Names.ofList clause.locals := by
  have htrim := clause.isTight.trim_append_right after.2
  simp only [Directive.clauseNames, htrim]
  cases clause with
  | default name =>
      have hsplit := splitBraces_of_notMem (name.notMem_chars (c := '{') (by decide))
      have hname : Directive.headName? name.chars = some name.text := by
        simpa using name.headName?_append noBlanks
      simp only [chars, hsplit, Text.pieces_of_forall name.notComma]
      simp [hname, locals]
  | alone group =>
      have hsplit := group.splitBraces_append (List.not_mem_nil (a := '{'))
      have hnames := group.filterMap_pieces noBlanks
      rw [List.nil_append, List.nil_append] at hsplit
      rw [noBlanks_val, List.nil_append] at hnames
      simp only [chars, hsplit, hnames, locals]
  | both name group =>
      have hname : Directive.headName? name.chars = some name.text := by
        simpa using name.headName?_append noBlanks
      have hfront : '{' ∉ name.chars ++ commaWord := by
        have hword : '{' ∉ commaWord := by decide
        simp [hword, name.notMem_chars (c := '{') (by decide)]
      have hhead : name.chars ++ commaWord ++ group.head =
          name.chars ++ ',' :: ([' '] ++ group.head) := by simp [commaWord]
      have hnames := group.filterMap_pieces oneSpace
      rw [oneSpace_val] at hnames
      simp only [chars, group.splitBraces_append hfront, hhead,
        Text.pieces_append_cons name.notComma (beq_self_eq_true ',')]
      rw [List.filterMap_cons_some hname, List.cons_append, hnames, locals]

end StylePrune.Import
