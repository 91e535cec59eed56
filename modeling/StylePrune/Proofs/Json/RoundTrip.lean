import StylePrune.Json.Basic
import StylePrune.Json.Read

/-!
# Reading what was written

A text is read back from its quoted form, whatever characters it has.  A list and an
object in the spread layout are read back by the reader of their shape if their parts
are.
-/

namespace StylePrune.Json

/-! ## Texts -/

theorem readText_of_escape {tail rest : List Char} {c : Char}
    (h : readEscape tail = .ok (c, rest)) :
    readText ('\\' :: tail) = (readText rest).map fun (cs, after) => (c :: cs, after) := by
  rw [readText]
  split
  · rename_i fault hfault
    rw [h] at hfault
    cases hfault
  · rename_i c' rest' hread
    rw [h] at hread
    obtain ⟨rfl, rfl⟩ := Prod.mk.inj (Except.ok.inj hread)
    cases readText rest <;> rfl

theorem readText_of_plain {c : Char} (hquote : c ≠ '"') (hescape : c ≠ '\\')
    (hlow : ¬c < ' ') (tail : List Char) :
    readText (c :: tail) = (readText tail).map fun (cs, after) => (c :: cs, after) := by
  rw [readText]
  · rw [if_neg hlow]
    cases readText tail <;> rfl
  · exact hquote
  · exact hescape

theorem hexValue?_digitChar : ∀ d < 16, hexValue? (Nat.digitChar d) = some d := by
  decide

theorem controlDigits_eq : ∀ n < 32,
    (if n < 16 then '0' :: Text.hexDigits n else Text.hexDigits n) =
      [Nat.digitChar (n / 16), Nat.digitChar (n % 16)] := by
  decide +kernel

/-- The numbered escapes of control characters. -/
theorem readEscape_control {n : Nat} (h : n < 32) (rest : List Char) :
    readEscape ('u' :: '0' :: '0' ::
        (if n < 16 then '0' :: Text.hexDigits n else Text.hexDigits n) ++ rest) =
      .ok (Char.ofNat n, rest) := by
  have hzero : hexValue? '0' = some 0 := hexValue?_digitChar 0 (by omega)
  have hhigh := hexValue?_digitChar (n / 16) (by omega)
  have hlow := hexValue?_digitChar (n % 16) (by omega)
  have hfour : readFourHex ('0' :: '0' ::
      (if n < 16 then '0' :: Text.hexDigits n else Text.hexDigits n) ++ rest) =
        .ok (n, rest) := by
    have hvalue : ((0 * 16 + 0) * 16 + n / 16) * 16 + n % 16 = n := by omega
    rw [controlDigits_eq n h]
    simp only [List.cons_append, List.nil_append, readFourHex, hzero, hhigh, hlow, hvalue]
  rw [List.cons_append, readEscape, hfour]
  simp only
  rw [if_neg (by omega), if_neg (by omega)]

/-- A character is read back from the way it is written. -/
theorem readText_escapeChar (c : Char) (tail : List Char) :
    readText (escapeChar c ++ tail) =
      (readText tail).map fun (cs, after) => (c :: cs, after) := by
  unfold escapeChar
  -- seven characters have an escape of their own
  iterate 7
    split
    · subst c
      exact readText_of_escape rfl
  split
  · rename_i hlow
    have hread : readEscape _ = .ok (Char.ofNat c.toNat, tail) :=
      readEscape_control hlow tail
    rw [Char.ofNat_toNat] at hread
    exact readText_of_escape hread
  · rename_i hquote hescape _ _ _ _ _ hlow
    exact readText_of_plain hquote hescape hlow tail

theorem readText_flatMap_escapeChar (text rest : List Char) :
    readText (text.flatMap escapeChar ++ '"' :: rest) = .ok (text, rest) := by
  induction text with
  | nil => rw [List.flatMap_nil, List.nil_append, readText]
  | cons c text ih =>
      rw [List.flatMap_cons, List.append_assoc, readText_escapeChar, ih]
      rfl

/-! ## Parts in brackets -/

/-- Only blanks. -/
def AllBlank (text : List Char) : Prop :=
  ∀ c ∈ text, isBlank c = true

theorem allBlank_newLine (depth : Nat) : AllBlank (newLine depth) := by
  intro c hc
  rcases List.mem_cons.mp hc with rfl | hc
  · rfl
  · rw [List.eq_of_mem_replicate hc]
    rfl

theorem skip_append {front : List Char} (hfront : AllBlank front) (text : List Char) :
    skip (front ++ text) = skip text :=
  List.dropWhile_append_of_pos hfront

theorem skip_cons {c : Char} (hc : isBlank c = false) (text : List Char) :
    skip (c :: text) = c :: text :=
  List.dropWhile_cons_of_neg (by simp [hc])

/-- A reader takes a text for a value, behind blanks and in front of anything. -/
def Reader.Takes {α : Type} (read : Reader α) (text : List Char) (a : α) : Prop :=
  ∀ front rest, AllBlank front → read (front ++ (text ++ rest)) = .ok (a, rest)

/-- A text begins as an item of a list can begin. -/
def Opens (text : List Char) : Prop :=
  ∃ c tail, text = c :: tail ∧ isBlank c = false ∧ c ≠ ']'

theorem itemTurn_close (first : Bool) {front : List Char} (hfront : AllBlank front)
    (rest : List Char) : itemTurn first (front ++ ']' :: rest) = .ok (.close rest) := by
  rw [itemTurn, skip_append hfront]
  rfl

theorem itemTurn_first {front text : List Char} (hfront : AllBlank front) (h : Opens text)
    (rest : List Char) :
    itemTurn true (front ++ (text ++ rest)) = .ok (.part (text ++ rest)) := by
  obtain ⟨c, tail, rfl, hc, hne⟩ := h
  rw [itemTurn, skip_append hfront, List.cons_append, skip_cons hc]
  split
  · rename_i heq
    cases heq
  · rename_i heq
    exact (hne (List.cons.inj heq).1).elim
  · rename_i heq
    rw [← heq]
    rfl

theorem itemTurn_next {front text : List Char} (hfront : AllBlank front) (h : Opens text)
    (rest : List Char) :
    itemTurn false (',' :: (front ++ (text ++ rest))) = .ok (.part (text ++ rest)) := by
  obtain ⟨c, tail, rfl, hc, hne⟩ := h
  have hskip : skip (front ++ c :: (tail ++ rest)) = c :: (tail ++ rest) := by
    rw [skip_append hfront, skip_cons hc]
  simp [itemTurn, skip_cons (c := ',') (by decide), hskip, hne]

theorem memberTurn_close (first : Bool) {front : List Char} (hfront : AllBlank front)
    (rest : List Char) : memberTurn first (front ++ '}' :: rest) = .ok (.close rest) := by
  rw [memberTurn, skip_append hfront]
  rfl

theorem memberTurn_first {front : List Char} (hfront : AllBlank front) (text : List Char) :
    memberTurn true (front ++ '"' :: text) = .ok (.part text) := by
  rw [memberTurn, skip_append hfront]
  rfl

theorem memberTurn_next {front : List Char} (hfront : AllBlank front) (text : List Char) :
    memberTurn false (',' :: (front ++ '"' :: text)) = .ok (.part text) := by
  have hskip : skip (front ++ '"' :: text) = '"' :: text := by
    rw [skip_append hfront]
    rfl
  simp [memberTurn, skip_cons (c := ',') (by decide), hskip]

section Parts

variable {α : Type} {turn : Bool → List Char → Except Fault Turn} {bounded : Bounded turn}
  {read : Reader α} {shrinks : read.Shrinks} {first : Bool} {text rest : List Char}

theorem readParts_of_close (h : turn first text = .ok (.close rest)) :
    readParts turn bounded read shrinks first text = .ok ([], rest) := by
  rw [readParts]
  split <;> simp_all

theorem readParts_of_part {a : α} {as : List α} {rest' after : List Char}
    (hturn : turn first text = .ok (.part rest)) (hread : read rest = .ok (a, rest'))
    (hnext : readParts turn bounded read shrinks false rest' = .ok (as, after)) :
    readParts turn bounded read shrinks first text = .ok (a :: as, after) := by
  rw [readParts]
  split
  · rename_i fault hfault
    rw [hturn] at hfault
    cases hfault
  · rename_i close hclose
    rw [hturn] at hclose
    cases hclose
  · rename_i part hpart
    rw [hturn] at hpart
    obtain rfl := Turn.part.inj (Except.ok.inj hpart)
    split
    · rename_i fault hfault
      rw [hread] at hfault
      cases hfault
    · rename_i b rest'' hb
      rw [hread] at hb
      obtain ⟨rfl, rfl⟩ := Prod.mk.inj (Except.ok.inj hb)
      rw [hnext]

/-- What holds of whatever a reader gives holds of all parts. -/
theorem forall_of_readParts {P : α → Prop}
    (hread : ∀ text a rest, read text = .ok (a, rest) → P a) {as : List α}
    {after : List Char}
    (h : readParts turn bounded read shrinks first text = .ok (as, after)) :
    ∀ a ∈ as, P a := by
  fun_induction readParts turn bounded read shrinks first text generalizing as after with
  | case1 => cases h
  | case2 =>
      obtain ⟨rfl, -⟩ := Prod.mk.inj (Except.ok.inj h)
      exact List.forall_mem_nil _
  | case3 => cases h
  | case4 => cases h
  | case5 first text rest hturn a rest' ha hle hlt as' after' hrest ih =>
      obtain ⟨rfl, -⟩ := Prod.mk.inj (Except.ok.inj h)
      exact List.forall_mem_cons.mpr ⟨hread _ _ _ ha, ih hrest⟩

theorem forall_of_readList {P : α → Prop}
    (hread : ∀ text a rest, read text = .ok (a, rest) → P a) {as : List α}
    (h : readList read shrinks text = .ok (as, rest)) : ∀ a ∈ as, P a := by
  unfold readList at h
  split at h
  · cases h
  · exact forall_of_readParts hread h
  · cases h

end Parts

/-! ## Lists and objects -/

theorem takes_readString (s : String) : Reader.Takes readString (writeText s.toList) s := by
  intro front rest hfront
  have hlist : writeText s.toList ++ rest =
      '"' :: (s.toList.flatMap escapeChar ++ '"' :: rest) := by
    simp [writeText]
  rw [hlist, readString, skip_append hfront, skip_cons rfl]
  simp only [readText_flatMap_escapeChar, String.ofList_toList]

section Layout

variable {α : Type} {read : Reader α} (shrinks : read.Shrinks) (form : α → Value)

theorem readParts_spreadItems {depth : Nat} {items : List α}
    (hitems : ∀ a ∈ items, read.Takes ((form a).spread (depth + 1)) a ∧
      Opens ((form a).spread (depth + 1))) (first : Bool) (rest : List Char) :
    readParts itemTurn bounded_itemTurn read shrinks first
        (spreadItems depth first (items.map form) ++ (newLine depth ++ ']' :: rest)) =
      .ok (items, rest) := by
  induction items generalizing first with
  | nil => exact readParts_of_close (itemTurn_close first (allBlank_newLine depth) rest)
  | cons a items ih =>
      obtain ⟨htakes, hopens⟩ := hitems a (by simp)
      have hnext := ih (fun b hb => hitems b (by simp [hb])) false
      have hread := htakes [] (spreadItems depth false (items.map form) ++
        (newLine depth ++ ']' :: rest)) (by simp [AllBlank])
      refine readParts_of_part ?_ hread hnext
      have hblank := allBlank_newLine (depth + 1)
      cases first with
      | true => simpa [spreadItems] using itemTurn_first hblank hopens _
      | false => simpa [spreadItems] using itemTurn_next hblank hopens _

/-- A list is read back from its spread layout if its items are. -/
theorem takes_readList {depth : Nat} {items : List α}
    (hitems : ∀ a ∈ items, read.Takes ((form a).spread (depth + 1)) a ∧
      Opens ((form a).spread (depth + 1))) :
    (readList read shrinks).Takes ((Value.list (items.map form)).spread depth) items := by
  intro front rest hfront
  have hopen : ∀ text, readList read shrinks (front ++ '[' :: text) =
      readParts itemTurn bounded_itemTurn read shrinks true text := by
    intro text
    rw [readList, skip_append hfront]
    rfl
  cases items with
  | nil =>
      have hclose : itemTurn true ([] ++ ']' :: rest) = .ok (.close rest) :=
        itemTurn_close true (by simp [AllBlank]) rest
      exact (hopen _).trans (readParts_of_close hclose)
  | cons a items =>
      have hparts := readParts_spreadItems shrinks form hitems true rest
      simp only [List.map_cons, Value.spread, List.cons_append,
        List.append_assoc] at hparts ⊢
      exact (hopen _).trans hparts

theorem readMember_eq {text : List Char} {a : α} (h : read.Takes text a) (key : String)
    (rest : List Char) :
    readMember read (key.toList.flatMap escapeChar ++ '"' :: ':' :: ' ' :: (text ++ rest)) =
      .ok ((key, a), rest) := by
  have hread : read (' ' :: (text ++ rest)) = .ok (a, rest) :=
    h [' '] rest (List.forall_mem_singleton.mpr rfl)
  rw [readMember, readText_flatMap_escapeChar]
  simp only [skip_cons (show isBlank ':' = false from rfl), hread, String.ofList_toList]

theorem readParts_spreadMembers {depth : Nat} {members : List (String × α)}
    (hmembers : ∀ member ∈ members,
      read.Takes ((form member.2).spread (depth + 1)) member.2)
    (first : Bool) (rest : List Char) :
    readParts memberTurn bounded_memberTurn (readMember read)
      (shrinks_readMember shrinks) first
        (spreadMembers depth first (members.map fun (key, a) => (key, form a)) ++
          (newLine depth ++ '}' :: rest)) =
      .ok (members, rest) := by
  induction members generalizing first with
  | nil => exact readParts_of_close (memberTurn_close first (allBlank_newLine depth) rest)
  | cons member members ih =>
      obtain ⟨key, a⟩ := member
      have hnext := ih (fun b hb => hmembers b (by simp [hb])) false
      have hread := readMember_eq (hmembers (key, a) (by simp)) key
        (spreadMembers depth false (members.map fun (key, a) => (key, form a)) ++
          (newLine depth ++ '}' :: rest))
      refine readParts_of_part ?_ hread hnext
      have hblank := allBlank_newLine (depth + 1)
      cases first with
      | true => simpa [spreadMembers, writeText] using memberTurn_first hblank _
      | false => simpa [spreadMembers, writeText] using memberTurn_next hblank _

/-- An object is read back from its spread layout if the values of its members are. -/
theorem takes_readObject {depth : Nat} {members : List (String × α)}
    (hmembers : ∀ member ∈ members,
      read.Takes ((form member.2).spread (depth + 1)) member.2) :
    (readObject read shrinks).Takes
      ((Value.object (members.map fun (key, a) => (key, form a))).spread depth)
      members := by
  intro front rest hfront
  have hopen : ∀ text, readObject read shrinks (front ++ '{' :: text) =
      readParts memberTurn bounded_memberTurn (readMember read)
        (shrinks_readMember shrinks) true
        text := by
    intro text
    rw [readObject, skip_append hfront]
    rfl
  cases members with
  | nil =>
      have hclose : memberTurn true ([] ++ '}' :: rest) = .ok (.close rest) :=
        memberTurn_close true (by simp [AllBlank]) rest
      exact (hopen _).trans (readParts_of_close hclose)
  | cons member members =>
      have hparts := readParts_spreadMembers shrinks form hmembers true rest
      simp only [List.map_cons, Value.spread, List.cons_append,
        List.append_assoc] at hparts ⊢
      exact (hopen _).trans hparts

end Layout

theorem opens_text (s : String) (depth : Nat) : Opens ((Value.text s).spread depth) := by
  refine ⟨'"', s.toList.flatMap escapeChar ++ ['"'], ?_, rfl, by decide⟩
  simp [Value.spread, Value.writePlain, writeText]

theorem opens_object (members : List (String × Value)) (depth : Nat) :
    Opens ((Value.object members).spread depth) := by
  cases members with
  | nil => exact ⟨'{', ['}'], by simp [Value.spread], rfl, by decide⟩
  | cons member members =>
      refine ⟨'{', spreadMembers depth true (member :: members) ++ newLine depth ++ ['}'],
        ?_, rfl, by decide⟩
      simp [Value.spread]

end StylePrune.Json
