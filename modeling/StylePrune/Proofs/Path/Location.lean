import StylePrune.Proofs.Path.Ending

/-!
# Where a path leads

A path is followed from the root folder, one component after the other: a name leads
on, a `..` leads back, and at the root it leads nowhere.  Normalizing keeps the place to
which an absolute path leads and leaves nothing to resolve (`normalize_canonical`).  The
normal form may still begin with a `..` behind the root, so two paths can lead to one
place and have different normal forms.
-/

namespace StylePrune.Path

open Component

/-! ## Normal forms -/

theorem IsLead.normalComponents {lead cs : List Component} (hlead : IsLead lead)
    (hcs : IsTail cs) : normalComponents (lead ++ cs) = lead ++ cs := by
  have hup : Path.normalComponents [.up] = [.up] := rfl
  cases hlead with
  | root => exact hcs.normalComponents
  | nothing =>
      cases hcs with
      | @below names h => exact normalComponents_append_names names rfl
      | @above names h => exact normalComponents_append_names names hup

theorem normalize_normalize (p : Path) : p.normalize.normalize = p.normalize := by
  obtain ⟨lead, cs, hlead, hcs, heq⟩ := exists_lead_normalize p
  rw [heq, normalize, hlead.components hcs.plain, hlead.normalComponents hcs]

/-- The components of a path in which nothing is left to resolve: no `.`, and at most one
`..`, which has nothing but the root in front. -/
structure IsResolved (cs : List Component) : Prop where
  noHere : .here ∉ cs
  oneUp : cs.count .up ≤ 1
  upInFront : ∀ front back, cs = front ++ .up :: back → front = [] ∨ front = [.root]

theorem up_notMem_names (names : List String) : Component.up ∉ names.map .name := by
  simp

theorem eq_nil_of_up_eq {front back : List Component} {names : List String}
    (h : .up :: names.map .name = front ++ .up :: back) : front = [] := by
  cases front with
  | nil => rfl
  | cons c front =>
      have hmem : .up ∈ names.map Component.name := by
        rw [(List.cons.inj h).2]
        simp
      exact (up_notMem_names names hmem).elim

theorem IsLead.isResolved {lead cs : List Component} (hlead : IsLead lead)
    (hcs : IsTail cs) :
    IsResolved (lead ++ cs) := by
  have hhere : .here ∉ lead ++ cs := by
    cases hlead <;> cases hcs <;> simp
  cases hcs with
  | @below names h =>
      have hup : .up ∉ lead ++ names.map .name := by cases hlead <;> simp
      refine ⟨hhere, by simp [List.count_eq_zero.mpr hup], fun front back heq => ?_⟩
      exact (hup (by rw [heq]; simp)).elim
  | @above names h =>
      have hcount : (names.map Component.name).count .up = 0 :=
        List.count_eq_zero.mpr (up_notMem_names names)
      refine ⟨hhere, by cases hlead <;> simp [hcount], fun front back heq => ?_⟩
      cases hlead with
      | nothing => exact Or.inl (eq_nil_of_up_eq heq)
      | root =>
          cases front with
          | nil => cases heq
          | cons c front =>
              obtain ⟨rfl, hrest⟩ := List.cons.inj heq
              rw [eq_nil_of_up_eq hrest]
              exact Or.inr rfl

theorem isResolved_normalize (p : Path) : IsResolved p.normalize.components := by
  obtain ⟨lead, cs, hlead, hcs, heq⟩ := exists_lead_normalize p
  rw [heq, hlead.components hcs.plain]
  exact hlead.isResolved hcs

/-! ## Places -/

/-- Where a component leads from a folder, which is given by the names on the way to it
from the root. -/
def follow : List String → Component → List String
  | _, .root => []
  | place, .here => place
  | place, .up => place.dropLast
  | place, .name n => place ++ [n]

/-- Where a path leads from the root folder. -/
def location (p : Path) : List String :=
  p.components.foldl follow []

theorem foldl_follow_names (place names : List String) :
    (names.map Component.name).foldl follow place = place ++ names := by
  induction names generalizing place with
  | nil => simp
  | cons name names ih =>
      rw [List.map_cons, List.foldl_cons, ih]
      simp [follow]

/-- A component that is pushed on a normal path leads on from where the path leads. -/
theorem foldl_follow_pushComponent {cs : List Component} (hcs : IsTail cs) {c : Component}
    (hc : IsPlain c) :
    (pushComponent (.root :: cs).reverse c).reverse.foldl follow [] =
      follow ((.root :: cs).foldl follow []) c := by
  cases hc with
  | @name n hn =>
      rw [pushComponent_name, List.reverse_cons, List.reverse_reverse, List.foldl_concat]
  | up =>
      cases hcs with
      | @below names h =>
          rcases List.eq_nil_or_concat' names with rfl | ⟨front, name, rfl⟩
          · rfl
          · have hpush : (pushComponent (.root :: (front ++ [name]).map .name).reverse
                .up).reverse = .root :: front.map .name := by simp [pushComponent]
            rw [hpush, List.foldl_cons, List.foldl_cons, foldl_follow_names,
              foldl_follow_names]
            simp [follow]
      | @above names h =>
          -- the `..` that is kept behind the root leads nowhere, and so does taking it back
          rcases List.eq_nil_or_concat' names with rfl | ⟨front, name, rfl⟩
          · rfl
          · have hpush :
                (pushComponent (.root :: .up :: (front ++ [name]).map .name).reverse
                .up).reverse = .root :: .up :: front.map .name := by simp [pushComponent]
            rw [hpush]
            simp only [List.foldl_cons, foldl_follow_names]
            simp [follow]

theorem foldl_follow_normal {cs more : List Component} (hcs : IsTail cs)
    (hmore : ∀ c ∈ more, IsPlain c) :
    (more.foldl pushComponent (.root :: cs).reverse).reverse.foldl follow [] =
      more.foldl follow ((.root :: cs).foldl follow []) := by
  induction more generalizing cs with
  | nil => rw [List.foldl_nil, List.foldl_nil, List.reverse_reverse]
  | cons c more ih =>
      obtain ⟨hc, hrest⟩ := List.forall_mem_cons.mp hmore
      obtain ⟨cs', hpush, hcs'⟩ := exists_pushComponent .root hcs hc
      have hpush' : pushComponent (.root :: cs).reverse c = (.root :: cs').reverse := hpush
      have hstep := foldl_follow_pushComponent hcs hc
      rw [hpush', List.reverse_reverse] at hstep
      rw [List.foldl_cons, List.foldl_cons, hpush', ih hcs' hrest, hstep]

/-- Normalizing an absolute path does not change where it leads. -/
theorem location_normalize {p : Path} (h : p.isAbsolute = true) :
    p.normalize.location = p.location := by
  obtain ⟨rest, hrest⟩ := isAbsolute_iff.mp h
  obtain ⟨cs, hnormal, hcs⟩ := exists_normalComponents h
  have hplain : ∀ c ∈ componentsOfPieces (rest.splitOn '/'), IsPlain c :=
    fun c hc => isPlain_of_mem_componentsOfPieces hc
  have hfold := foldl_follow_normal isTail_nil hplain
  rw [location, normalize, hnormal, hcs.components, ← hnormal, normalComponents, location,
    components_of_absolute hrest]
  exact hfold

/-! ## One way after the other -/

theorem components_normalize {p : Path} (h : p.isAbsolute = true) :
    p.normalize.components = normalComponents p.components := by
  obtain ⟨cs, hcs, htail⟩ := exists_normalComponents h
  rw [normalize, hcs, htail.components]

theorem normalComponents_normalize_append {p : Path} (h : p.isAbsolute = true)
    (more : List Component) :
    normalComponents (p.normalize.components ++ more) =
      normalComponents (p.components ++ more) := by
  obtain ⟨cs, hnormal, hcs⟩ := exists_normalComponents h
  have hfold : (normalComponents p.components).foldl pushComponent [] =
      p.components.foldl pushComponent [] := by
    rw [← List.reverse_inj, hnormal]
    exact hcs.normalComponents.trans hnormal.symm
  rw [components_normalize h, normalComponents, List.foldl_append, hfold,
    ← List.foldl_append]
  rfl

theorem isAbsolute_join_eq_false {p q : Path} (hp : p.isAbsolute = false)
    (hq : q.isAbsolute = false) : (p.join q).isAbsolute = false := by
  rw [join, hq, if_neg (by simp)]
  cases htext : p.text.toList with
  | nil =>
      have hempty : p.text = "" := String.toList_inj.mp htext
      rwa [if_pos (Or.inl hempty), hempty, String.empty_append]
  | cons c rest =>
      have hc : c ≠ '/' := by simpa [isAbsolute, htext] using hp
      split <;> simp [isAbsolute, htext, hc]

/-- To go on from where a way leads is to go the whole way. -/
theorem absolutize_absolutize {base p q : Path} (hbase : base.isAbsolute = true)
    (hp : p.isAbsolute = false) (hq : q.isAbsolute = false) :
    absolutize (absolutize base p) q = absolutize base (p.join q) := by
  have hfirst : absolutize base p = (base.join p).normalize := by
    rw [absolutize, hp, if_neg (by simp)]
  have hjoin : (base.join p).isAbsolute = true := isAbsolute_join hbase
  have hnormal : (base.join p).normalize.isAbsolute = true :=
    (isNormal_normalize hjoin).absolute
  have hwhole : (p.join q).isAbsolute = false := isAbsolute_join_eq_false hp hq
  rw [hfirst, absolutize, hq, if_neg (by simp), absolutize, hwhole, if_neg (by simp)]
  calc
    ((base.join p).normalize.join q).normalize
        = ofComponents (normalComponents
            ((base.join p).components ++ componentsOfPieces q.pieces)) := by
      rw [normalize, components_join_of_isAbsolute hnormal hq,
        normalComponents_normalize_append hjoin]
    _ = (base.join (p.join q)).normalize := by
      rw [components_join_of_isAbsolute hbase hp, normalize,
        components_join_of_isAbsolute hbase hwhole, componentsOfPieces_join p hq,
        List.append_assoc]

/-- Normalizing resolves every path once and for all; it keeps absolute paths absolute and
the place to which they lead, and it can be done step by step along a way. -/
theorem normalize_canonical :
    (∀ p : Path, p.normalize.normalize = p.normalize ∧ IsResolved p.normalize.components) ∧
    (∀ p : Path, p.isAbsolute = true →
      p.normalize.isAbsolute = true ∧ p.normalize.location = p.location) ∧
    ∀ base q r : Path, base.isAbsolute = true → q.isAbsolute = false →
      r.isAbsolute = false → absolutize (absolutize base q) r =
        absolutize base (q.join r) := by
  refine ⟨fun p => ⟨normalize_normalize p, isResolved_normalize p⟩, fun p h => ?_, ?_⟩
  · exact ⟨(isNormal_normalize h).absolute, location_normalize h⟩
  · intro base q r hbase hq hr
    exact absolutize_absolutize hbase hq hr

/-- Three climbs from two folders below the root leave one `..` behind the root, and a
fourth one takes it back. -/
theorem normalize_canonical_climbs :
    (⟨"/a//b/./../../.."⟩ : Path).isAbsolute = true ∧
    (⟨"/a//b/./../../.."⟩ : Path).normalize = ⟨"/.."⟩ ∧
    (⟨"/a//b/./../../.."⟩ : Path).normalize.location =
      (⟨"/a//b/./../../.."⟩ : Path).location ∧
    absolutize (absolutize ⟨"/a//b"⟩ ⟨"./../../../"⟩) ⟨"../c"⟩ =
      absolutize ⟨"/a//b"⟩ ((⟨"./../../../"⟩ : Path).join ⟨"../c"⟩) ∧
    absolutize ⟨"/a//b"⟩ ((⟨"./../../../"⟩ : Path).join ⟨"../c"⟩) = ⟨"/c"⟩ := by
  refine ⟨by decide, by decide +kernel, ?_, ?_, by decide +kernel⟩
  · exact (normalize_canonical.2.1 _ (by decide)).2
  · exact normalize_canonical.2.2 _ _ _ (by decide) (by decide) (by decide)

end StylePrune.Path
