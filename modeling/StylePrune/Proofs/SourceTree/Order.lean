import Mathlib.Data.List.Infix
import Mathlib.Data.List.Lex
import Mathlib.Data.Prod.Lex
import Mathlib.Data.String.Basic
import StylePrune.SourceTree

/-!
# The order of paths

Paths are ordered as lists of components, and a component by its kind and its
name; hence the order of paths is linear up to spelling.  A map by paths is
increasing, holds each path once, and the paths below a folder stand together in
it.
-/

namespace StylePrune

namespace Component

/-- What a component is ordered by. -/
def key : Component → ℕ ×ₗ String
  | .name s => toLex (3, s)
  | c => toLex (c.rank, "")

theorem key_injective : Function.Injective key := by
  intro c d h
  cases c <;> cases d <;> simp_all [key, rank]

theorem before_iff {c d : Component} : c.before d = true ↔ c.key < d.key := by
  cases c <;> cases d <;> simp [before, key, rank, Prod.Lex.toLex_lt_toLex]

theorem listBefore_iff {cs ds : List Component} :
    listBefore cs ds = true ↔ cs.map key < ds.map key := by
  induction cs generalizing ds with
  | nil => cases ds <;> simp [listBefore]
  | cons c cs ih =>
      cases ds with
      | nil => simp [listBefore]
      | cons d ds =>
          rw [listBefore, List.map_cons, List.map_cons, List.cons_lt_cons_iff]
          by_cases hcd : c = d
          · simp [hcd, ih]
          · have hkey : c.key ≠ d.key := fun h => hcd (key_injective h)
            simp [hcd, hkey, before_iff]

theorem not_listBefore_append (ds rest : List Component) :
    listBefore (ds ++ rest) ds = false := by
  induction ds with
  | nil => cases rest <;> rfl
  | cons d ds ih => simp [listBefore, ih]

/-- What lies between a list and one that it begins, begins with it too. -/
theorem isPrefix_of_between {ds ps qs : List Component} (hlow : listBefore ps ds = false)
    (hhigh : listBefore ps qs = true) (h : ds <+: qs) : ds <+: ps := by
  induction ds generalizing ps qs with
  | nil => exact List.nil_prefix
  | cons d ds ih =>
      obtain ⟨qs, rfl⟩ : ∃ rest, qs = d :: rest := by
        obtain ⟨rest, rfl⟩ := h
        exact ⟨ds ++ rest, rfl⟩
      cases ps with
      | nil => simp [listBefore] at hlow
      | cons p ps =>
          by_cases hpd : p = d
          · subst hpd
            simp only [listBefore, if_true] at hlow hhigh
            rw [List.cons_prefix_cons] at h ⊢
            exact ⟨rfl, ih hlow hhigh h.2⟩
          · simp only [listBefore, if_neg hpd] at hlow hhigh
            rw [hlow] at hhigh
            cases hhigh

end Component

namespace Path

/-- What a path is ordered by. -/
def key (p : Path) : List (ℕ ×ₗ String) :=
  p.components.map Component.key

theorem before_iff {p q : Path} : p.before q = true ↔ p.key < q.key :=
  Component.listBefore_iff

theorem same_iff {p q : Path} : p.same q = true ↔ p.key = q.key := by
  rw [same, decide_eq_true_iff, key, key,
    List.map_inj_right fun _ _ h => Component.key_injective h]

theorem startsWith_iff {p dir : Path} :
    p.startsWith dir = true ↔ dir.components <+: p.components :=
  List.isPrefixOf_iff_prefix

theorem not_before_of_startsWith {p dir : Path} (h : p.startsWith dir = true) :
    p.before dir = false := by
  obtain ⟨rest, hrest⟩ := startsWith_iff.mp h
  rw [before, ← hrest]
  exact Component.not_listBefore_append _ rest

/-- From a folder on, the paths below it come first. -/
theorem startsWith_of_between {dir p q : Path} (hlow : p.before dir = false)
    (hhigh : p.before q = true) (h : q.startsWith dir = true) : p.startsWith dir = true :=
  startsWith_iff.mpr (Component.isPrefix_of_between hlow hhigh (startsWith_iff.mp h))

end Path

namespace PathMap

variable {α : Type}

/-- A map is increasing in its paths. -/
def Sorted (map : PathMap α) : Prop :=
  map.Pairwise fun a b => a.1.before b.1 = true

theorem mem_insert {path : Path} {value : α} {map : PathMap α} {entry : Path × α}
    (h : entry ∈ map.insert path value) :
    entry ∈ map ∨ entry = (path, value) ∨
      ∃ old, (entry.1, old) ∈ map ∧ path.same entry.1 = true ∧ entry.2 = value := by
  induction map with
  | nil => exact Or.inr (Or.inl (List.mem_singleton.mp h))
  | cons head rest ih =>
      obtain ⟨p, v⟩ := head
      rw [insert] at h
      split at h
      · rename_i hsame
        rcases List.mem_cons.mp h with rfl | h
        · exact Or.inr (Or.inr ⟨v, by simp, hsame, rfl⟩)
        · exact Or.inl (List.mem_cons_of_mem _ h)
      · split at h
        · rcases List.mem_cons.mp h with rfl | h
          · exact Or.inr (Or.inl rfl)
          · exact Or.inl h
        · rcases List.mem_cons.mp h with rfl | h
          · exact Or.inl List.mem_cons_self
          · rcases ih h with h | h | ⟨old, hold, hsame, hvalue⟩
            · exact Or.inl (List.mem_cons_of_mem _ h)
            · exact Or.inr (Or.inl h)
            · exact Or.inr (Or.inr ⟨old, List.mem_cons_of_mem _ hold, hsame, hvalue⟩)

theorem sorted_insert {map : PathMap α} (h : map.Sorted) (path : Path) (value : α) :
    (map.insert path value).Sorted := by
  induction map with
  | nil => exact List.pairwise_singleton _ _
  | cons head rest ih =>
      obtain ⟨p, v⟩ := head
      obtain ⟨hhead, hrest⟩ := List.pairwise_cons.mp h
      rw [insert]
      split
      · exact List.pairwise_cons.mpr ⟨hhead, hrest⟩
      · rename_i hsame
        split
        · rename_i hbefore
          refine List.pairwise_cons.mpr ⟨?_, h⟩
          intro entry hentry
          rcases List.mem_cons.mp hentry with rfl | hentry
          · exact hbefore
          · have hnext := hhead entry hentry
            rw [Path.before_iff] at hbefore hnext ⊢
            exact hbefore.trans hnext
        · rename_i hbefore
          refine List.pairwise_cons.mpr ⟨?_, ih hrest⟩
          have hafter : p.before path = true := by
            rw [Path.same_iff] at hsame
            rw [Path.before_iff] at hbefore ⊢
            exact lt_of_le_of_ne (not_lt.mp hbefore) (Ne.symm hsame)
          intro entry hentry
          rcases mem_insert hentry with hentry | rfl | ⟨old, hold, -, -⟩
          · exact hhead entry hentry
          · exact hafter
          · exact hhead (entry.1, old) hold

theorem sorted_ofList (pairs : List (Path × α)) : (ofList pairs).Sorted := by
  have hfold : ∀ map : PathMap α, map.Sorted →
      (pairs.foldl (fun map pair => map.insert pair.1 pair.2) map).Sorted := by
    induction pairs with
    | nil => exact fun map hmap => hmap
    | cons pair pairs ih => exact fun map hmap => ih _ (sorted_insert hmap pair.1 pair.2)
  exact hfold [] List.Pairwise.nil

theorem insert_subset {pairs map : List (Path × α)} {pair : Path × α}
    (hspelled : ∀ a ∈ pairs, ∀ b ∈ pairs, a.1.same b.1 = true → a.1 = b.1)
    (hpair : pair ∈ pairs) (hmap : map ⊆ pairs) : insert pair.1 pair.2 map ⊆ pairs := by
  intro e he
  rcases mem_insert he with he | rfl | ⟨old, hold, hsame, hvalue⟩
  · exact hmap he
  · exact hpair
  · have hspell : pair.1 = e.1 := hspelled pair hpair (e.1, old) (hmap hold) hsame
    rwa [show e = pair from Prod.ext hspell.symm hvalue]

/-- Where each path is spelled in one way, a map holds pairs of its list. -/
theorem mem_of_mem_ofList {pairs : List (Path × α)}
    (hspelled : ∀ a ∈ pairs, ∀ b ∈ pairs, a.1.same b.1 = true → a.1 = b.1)
    {entry : Path × α} (h : entry ∈ ofList pairs) : entry ∈ pairs := by
  have hfold : ∀ (more : List (Path × α)) (map : PathMap α), more ⊆ pairs → map ⊆ pairs →
      more.foldl (fun map pair => map.insert pair.1 pair.2) map ⊆ pairs := by
    intro more
    induction more with
    | nil => exact fun map _ hmap => hmap
    | cons pair more ih =>
        intro map hmore hmap
        exact ih _ (fun e he => hmore (List.mem_cons_of_mem _ he))
          (insert_subset hspelled (hmore List.mem_cons_self) hmap)
  exact hfold pairs [] (List.Subset.refl _) (List.nil_subset _) h

theorem mem_insert_of_mem {path : Path} {value : α} {map : PathMap α} {entry : Path × α}
    (h : entry ∈ map) (hother : path.same entry.1 = false) :
    entry ∈ map.insert path value := by
  induction map with
  | nil => cases h
  | cons head rest ih =>
      obtain ⟨p, v⟩ := head
      rw [insert]
      rcases List.mem_cons.mp h with rfl | h
      · rw [if_neg (by simp [hother])]
        split <;> simp
      · split
        · exact List.mem_cons_of_mem _ h
        · split
          · exact List.mem_cons_of_mem _ (List.mem_cons_of_mem _ h)
          · exact List.mem_cons_of_mem _ (ih h)

theorem exists_mem_insert (path : Path) (value : α) (map : PathMap α) :
    ∃ p, (p, value) ∈ map.insert path value ∧
      (p = path ∨ path.same p = true ∧ ∃ old, (p, old) ∈ map) := by
  induction map with
  | nil => exact ⟨path, List.mem_singleton_self _, Or.inl rfl⟩
  | cons head rest ih =>
      obtain ⟨p, v⟩ := head
      rw [insert]
      split
      · rename_i hsame
        exact ⟨p, List.mem_cons_self, Or.inr ⟨hsame, v, List.mem_cons_self⟩⟩
      · split
        · exact ⟨path, List.mem_cons_self, Or.inl rfl⟩
        · obtain ⟨q, hq, hpath⟩ := ih
          refine ⟨q, List.mem_cons_of_mem _ hq, hpath.imp id ?_⟩
          rintro ⟨hsame, old, hold⟩
          exact ⟨hsame, old, List.mem_cons_of_mem _ hold⟩

/-- Where each path stands for one pair, a map holds the pairs of its list. -/
theorem mem_ofList_iff {pairs : List (Path × α)}
    (hone : ∀ a ∈ pairs, ∀ b ∈ pairs, a.1.same b.1 = true → a = b) {entry : Path × α} :
    entry ∈ ofList pairs ↔ entry ∈ pairs := by
  have hspelled : ∀ a ∈ pairs, ∀ b ∈ pairs, a.1.same b.1 = true → a.1 = b.1 :=
    fun a ha b hb hsame => congrArg Prod.fst (hone a ha b hb hsame)
  have hself : ∀ (pair : Path × α) (map : PathMap α), pair ∈ pairs → map ⊆ pairs →
      pair ∈ map.insert pair.1 pair.2 := by
    intro pair map hpair hmap
    obtain ⟨p, hp, rfl | ⟨hsame, old, hold⟩⟩ := exists_mem_insert pair.1 pair.2 map
    · exact hp
    · have hpath := congrArg Prod.fst (hone pair hpair (p, old) (hmap hold) hsame)
      rwa [show (p, pair.2) = pair from Prod.ext hpath.symm rfl] at hp
  have hfold : ∀ (more : List (Path × α)) (map : PathMap α), more ⊆ pairs → map ⊆ pairs →
      entry ∈ more ∨ entry ∈ map →
        entry ∈ more.foldl (fun map pair => map.insert pair.1 pair.2) map := by
    intro more
    induction more with
    | nil => exact fun map _ _ hentry => hentry.resolve_left List.not_mem_nil
    | cons pair more ih =>
        intro map hmore hmap hentry
        have hpair : pair ∈ pairs := hmore List.mem_cons_self
        refine ih _ (fun e he => hmore (List.mem_cons_of_mem _ he))
          (insert_subset hspelled hpair hmap) ?_
        rw [List.mem_cons, or_assoc, or_left_comm] at hentry
        refine hentry.imp id fun hentry => ?_
        rcases hentry with rfl | hentry
        · exact hself entry map hpair hmap
        · cases hsame : pair.1.same entry.1 with
          | true =>
              obtain rfl := hone pair hpair entry (hmap hentry) hsame
              exact hself pair map hpair hmap
          | false => exact mem_insert_of_mem hentry hsame
  refine ⟨mem_of_mem_ofList hspelled, fun h => ?_⟩
  exact hfold pairs [] (List.Subset.refl _) (List.nil_subset _) (Or.inl h)

/-- In an increasing map each entry is found under its path. -/
theorem get?_of_mem {map : PathMap α} (hmap : map.Sorted) {path : Path} {value : α}
    (h : (path, value) ∈ map) : map.get? path = some value := by
  induction map with
  | nil => cases h
  | cons head rest ih =>
      obtain ⟨p, v⟩ := head
      obtain ⟨hhead, hrest⟩ := List.pairwise_cons.mp hmap
      rcases List.mem_cons.mp h with heq | h
      · obtain ⟨rfl, rfl⟩ := Prod.mk.inj heq
        simp [get?, Path.same]
      · have hne : path.same p = false := by
          have hbefore := hhead _ h
          rw [Path.before_iff] at hbefore
          rw [Bool.eq_false_iff, ne_eq, Path.same_iff]
          exact fun heq => (heq ▸ hbefore).false
        have hfind := ih hrest h
        rw [get?] at hfind ⊢
        rw [List.find?_cons_of_neg (by simpa using hne)]
        exact hfind

theorem takeWhile_eq_filter {test : α → Bool} {l : List α}
    (h : l.Pairwise fun a b => test b = true → test a = true) :
    l.takeWhile test = l.filter test := by
  induction l with
  | nil => rfl
  | cons a l ih =>
      obtain ⟨hhead, hrest⟩ := List.pairwise_cons.mp h
      by_cases ha : test a = true
      · rw [List.takeWhile_cons_of_pos ha, List.filter_cons_of_pos ha, ih hrest]
      · rw [List.takeWhile_cons_of_neg ha, List.filter_cons_of_neg ha]
        exact (List.filter_eq_nil_iff.mpr fun b hb htest => ha (hhead b hb htest)).symm

/-- A walk from a folder on, as long as paths lie below it, meets all of them. -/
theorem takeWhile_startingAt {map : PathMap α} (hmap : map.Sorted) (dir : Path) :
    ((map.startingAt dir).takeWhile fun (path, _) => path.startsWith dir) =
      map.filter fun (path, _) => path.startsWith dir := by
  induction map with
  | nil => rfl
  | cons head rest ih =>
      obtain ⟨hhead, hrest⟩ := List.pairwise_cons.mp hmap
      by_cases hbefore : head.1.before dir = true
      · have hout : head.1.startsWith dir = false := by
          rw [Bool.eq_false_iff]
          intro hin
          rw [Path.not_before_of_startsWith hin] at hbefore
          cases hbefore
        rw [startingAt, List.dropWhile_cons, if_pos hbefore, List.filter_cons,
          if_neg (by simp [hout])]
        exact ih hrest
      · rw [startingAt, List.dropWhile_cons, if_neg hbefore]
        apply takeWhile_eq_filter
        refine hmap.imp_of_mem fun {a b} ha _ hab hin => ?_
        refine Path.startsWith_of_between ?_ hab hin
        rw [Bool.eq_false_iff]
        intro hlow
        rcases List.mem_cons.mp ha with rfl | ha
        · exact hbefore hlow
        · have hfirst := hhead a ha
          rw [Path.before_iff] at hbefore hlow hfirst
          exact hbefore (hfirst.trans hlow)

end PathMap

end StylePrune
