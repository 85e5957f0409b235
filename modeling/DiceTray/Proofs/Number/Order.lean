import DiceTray.Proofs.Number.Rounding

namespace DiceTray

open Float.Model UnpackedFloat

namespace Double

section Height

variable {u v : UnpackedFloat} {m m' : Nat} {e e' : Int}

inductive Packed : UnpackedFloat → Prop where
  | notANumber : Packed .notANumber
  | infinity (s : Sign) : Packed (.infinity s)
  | zero (s : Sign) : Packed (.zero s)
  | finite (s : Sign) {m : Nat} {e : Int} (hm : 0 < m) (hlt : m < 2 ^ 53) (hlow : -1074 ≤ e)
      (hhigh : e ≤ 971) : Packed (.finite s m e hm)

theorem packed_unpack (b : BitVec Format.binary64.numBits) :
    Packed (UnpackedFloat.unpack .binary64 b) := by
  have hproper := proper_unpack b
  have hwithin := @within_unpack b
  cases hu : UnpackedFloat.unpack .binary64 b with
  | notANumber => exact .notANumber
  | infinity s => exact .infinity s
  | zero s => exact .zero s
  | finite s m e hm =>
      rw [hu] at hproper hwithin
      cases hproper with
      | finite hlt hlow =>
          cases hwithin rfl with
          | finite hhigh => exact .finite s hm hlt hlow hhigh

def reach (m : Nat) (e : Int) : Int := (e + 1075) * 2 ^ 53 + m

/-- Where a double stands among all the others. NaN stands nowhere. -/
def level? : UnpackedFloat → Option Int
  | .notANumber => none
  | .zero _ => some 0
  | .finite s m e _ => some (signed s (reach m e))
  | .infinity s => some (signed s (2 ^ 64))

theorem reach_bounds (hm : 0 < m) (hlt : m < 2 ^ 53) (hlow : -1074 ≤ e) (hhigh : e ≤ 971) :
    0 < reach m e ∧ reach m e < 2 ^ 64 := by
  unfold reach
  omega

theorem compare_reach (hlt : m < 2 ^ 53) (hlt' : m' < 2 ^ 53) :
    (compare e e').then (compare m m') = compare (reach m e) (reach m' e') := by
  rcases Int.lt_trichotomy e e' with he | rfl | he
  · rw [Int.compare_eq_lt.mpr he]
    exact (Int.compare_eq_lt.mpr (by unfold reach; omega)).symm
  · rw [Int.compare_eq_eq.mpr rfl, Ordering.eq_then]
    rcases Nat.lt_trichotomy m m' with hm | rfl | hm
    · rw [Nat.compare_eq_lt.mpr hm]
      exact (Int.compare_eq_lt.mpr (by unfold reach; omega)).symm
    · rw [Nat.compare_eq_eq.mpr rfl]
      exact (Int.compare_eq_eq.mpr rfl).symm
    · rw [Nat.compare_eq_gt.mpr hm]
      exact (Int.compare_eq_gt.mpr (by unfold reach; omega)).symm
  · rw [Int.compare_eq_gt.mpr he]
    exact (Int.compare_eq_gt.mpr (by unfold reach; omega)).symm

theorem compare_neg (x y : Int) : compare (-x) (-y) = (compare x y).swap := by
  rw [Int.compare_swap, Int.compare_eq_ite_lt, Int.compare_eq_ite_lt]
  simp only [Int.neg_lt_neg_iff]

theorem compare_signed {x y : Int} (hx : 0 < x) (hy : 0 < y) (s s' : Sign) :
    compare (signed s x) (signed s' y) =
      match s, s' with
      | .negative, .negative => (compare x y).swap
      | .negative, .positive => .lt
      | .positive, .negative => .gt
      | .positive, .positive => compare x y := by
  cases s <;> cases s'
  · exact compare_neg x y
  · refine Int.compare_eq_lt.mpr ?_
    change -x < y
    omega
  · refine Int.compare_eq_gt.mpr ?_
    change -y < x
    omega
  · rfl

theorem compare_eq_of_packed (hu : Packed u) (hv : Packed v) :
    u.compare v = (level? u).bind fun x => (level? v).map (compare x) := by
  cases hu with
  | notANumber => rfl
  | infinity s =>
      cases hv with
      | notANumber => cases s <;> rfl
      | infinity s' => cases s <;> cases s' <;> rfl
      | zero s' => cases s <;> rfl
      | finite s' hm hlt hlow hhigh =>
          obtain ⟨hpos, hless⟩ := reach_bounds hm hlt hlow hhigh
          have hcompare := compare_signed (by decide : (0 : Int) < 2 ^ 64) hpos s s'
          rw [Int.compare_eq_gt.mpr hless] at hcompare
          refine Eq.trans ?_ (congrArg some hcompare.symm)
          cases s <;> cases s' <;> rfl
  | zero s =>
      cases hv with
      | notANumber => rfl
      | infinity s' => cases s' <;> rfl
      | zero s' => rfl
      | finite s' hm hlt hlow hhigh =>
          have hpos := (reach_bounds hm hlt hlow hhigh).1
          cases s'
          · exact congrArg some (Int.compare_eq_gt.mpr (Int.neg_neg_of_pos hpos)).symm
          · exact congrArg some (Int.compare_eq_lt.mpr hpos).symm
  | finite s hm hlt hlow hhigh =>
      obtain ⟨hpos, hless⟩ := reach_bounds hm hlt hlow hhigh
      cases hv with
      | notANumber => cases s <;> rfl
      | infinity s' =>
          have hcompare := compare_signed hpos (by decide : (0 : Int) < 2 ^ 64) s s'
          rw [Int.compare_eq_lt.mpr hless] at hcompare
          refine Eq.trans ?_ (congrArg some hcompare.symm)
          cases s <;> cases s' <;> rfl
      | zero s' =>
          cases s
          · exact congrArg some (Int.compare_eq_lt.mpr (Int.neg_neg_of_pos hpos)).symm
          · exact congrArg some (Int.compare_eq_gt.mpr hpos).symm
      | finite s' hm' hlt' hlow' hhigh' =>
          have hpos' := (reach_bounds hm' hlt' hlow' hhigh').1
          have hcompare := compare_signed hpos hpos' s s'
          rw [← compare_reach hlt hlt'] at hcompare
          refine Eq.trans ?_ (congrArg some hcompare.symm)
          cases s <;> cases s' <;> rfl

end Height

section Floats

variable {x y : Float}

theorem lt_iff_compare :
    x < y ↔ x.toModel.unpack.compare y.toModel.unpack = some .lt :=
  decide_eq_true_iff.trans beq_iff_eq

theorem beq_iff_compare :
    (x == y) = true ↔ x.toModel.unpack.compare y.toModel.unpack = some .eq := by
  change (x.toModel.unpack.compare y.toModel.unpack == some .eq) = true ↔ _
  rw [beq_iff_eq]

def height? (x : Float) : Option Int := level? x.toModel.unpack

theorem height?_eq_none_iff : height? x = none ↔ x.isNaN = true := by
  change level? x.toModel.unpack = none ↔ x.toModel.unpack.isNaN = true
  cases x.toModel.unpack <;> simp [level?, UnpackedFloat.isNaN]

theorem compare_eq_of_heights :
    x.toModel.unpack.compare y.toModel.unpack =
      (height? x).bind fun i => (height? y).map (compare i) :=
  compare_eq_of_packed (packed_unpack _) (packed_unpack _)

theorem compareReal?_eq :
    Number.compareReal? x y = (height? x).bind fun i => (height? y).map (compare i) := by
  unfold Number.compareReal?
  simp only [lt_iff_compare, beq_iff_compare, compare_eq_of_heights]
  cases height? x with
  | none => cases height? y <;> rfl
  | some i =>
      cases height? y with
      | none => rfl
      | some j =>
          simp only [Option.bind_some, Option.map_some, Option.some.injEq, Int.compare_eq_lt,
            Int.compare_eq_eq]
          rcases Int.lt_trichotomy i j with h | h | h
          · rw [if_pos h, Int.compare_eq_lt.mpr h]
          · rw [if_neg (by omega), if_pos h, Int.compare_eq_eq.mpr h]
          · rw [if_neg (by omega), if_neg (by omega), if_pos h, Int.compare_eq_gt.mpr h]

theorem beq_iff_heights : (x == y) = true ↔ ∃ k, height? x = some k ∧ height? y = some k := by
  rw [beq_iff_compare, compare_eq_of_heights, Option.bind_eq_some_iff]
  simp only [Option.map_eq_some_iff, Int.compare_eq_eq]
  constructor
  · rintro ⟨k, hx, l, hy, rfl⟩
    exact ⟨k, hx, hy⟩
  · rintro ⟨k, hx, hy⟩
    exact ⟨k, hx, k, hy, rfl⟩

end Floats

section Words

variable {u v : UnpackedFloat}

theorem Whole.exists_level_le (hu : Whole u) (hv : Whole v) (h : grade u ≤ grade v) :
    ∃ k l, level? u = some k ∧ level? v = some l ∧ k ≤ l := by
  cases hu with
  | zero s =>
      cases hv with
      | zero s' => exact ⟨_, _, rfl, rfl, Int.le_refl _⟩
      | @finite s' m' e' hm' hlow' hhigh' he' =>
          refine ⟨_, _, rfl, rfl, ?_⟩
          change 0 ≤ signed s' (size m' e') at h
          cases s' <;> simp only [signed, size, reach] at h ⊢ <;> omega
  | @finite s m e hm hlow hhigh he =>
      cases hv with
      | zero s' =>
          refine ⟨_, _, rfl, rfl, ?_⟩
          change signed s (size m e) ≤ 0 at h
          cases s <;> simp only [signed, size, reach] at h ⊢ <;> omega
      | @finite s' m' e' hm' hlow' hhigh' he' =>
          refine ⟨_, _, rfl, rfl, ?_⟩
          change signed s (size m e) ≤ signed s' (size m' e') at h
          cases s <;> cases s' <;> simp only [signed, size, reach] at h ⊢ <;> omega

theorem exists_heights_of_le {i j : Int64} (h : i.toInt ≤ j.toInt) :
    ∃ k l, height? (toDouble i) = some k ∧ height? (toDouble j) = some l ∧ k ≤ l := by
  obtain ⟨hi, hgrade⟩ := whole_toDouble i
  obtain ⟨hj, hgrade'⟩ := whole_toDouble j
  refine hi.exists_level_le hj ?_
  rw [hgrade, hgrade']
  exact signedPlace_le h

theorem signedPlace_lt {m n : Int} (h : m < n) (hbits : m.natAbs < 2 ^ 53 ∨ n.natAbs < 2 ^ 53) :
    signedPlace m < signedPlace n := by
  rcases hbits with hm | hn
  · exact Int.lt_of_lt_of_le (signedPlace_lt_succ (by omega) (by omega)) (signedPlace_le h)
  · have hstep := signedPlace_lt_succ (n := n - 1) (by omega) (by omega)
    rw [Int.sub_add_cancel] at hstep
    exact Int.lt_of_le_of_lt (signedPlace_le (by omega)) hstep

theorem le_natAbs_of_signedPlace_eq {m n : Int} (hne : m ≠ n)
    (h : signedPlace m = signedPlace n) : 2 ^ 53 ≤ m.natAbs ∧ 2 ^ 53 ≤ n.natAbs := by
  by_contra hbits
  rcases Int.lt_or_gt_of_ne hne with hlt | hlt
  · have := signedPlace_lt hlt (by omega)
    omega
  · have := signedPlace_lt hlt (by omega)
    omega

end Words

end Double

namespace Number

open Double

variable {a b c : Number} {o : Ordering}

def AsDoubles (a b : Number) : Prop := (∃ x, a = .real x) ∨ ∃ y, b = .real y

def Merged (a b : Number) : Prop :=
  ∃ i j : Int64, a = .int i ∧ b = .int j ∧ i ≠ j ∧ (toDouble i == toDouble j) = true

theorem int_or_asDoubles (a b : Number) : (∃ i j, a = .int i ∧ b = .int j) ∨ AsDoubles a b := by
  cases a with
  | real x => exact .inr (.inl ⟨x, rfl⟩)
  | int i =>
      cases b with
      | real y => exact .inr (.inr ⟨y, rfl⟩)
      | int j => exact .inl ⟨i, j, rfl, rfl⟩

theorem AsDoubles.symm (h : AsDoubles a b) : AsDoubles b a := Or.symm h

theorem AsDoubles.not_merged (h : AsDoubles a b) : ¬ Merged a b := by
  rintro ⟨i, j, rfl, rfl, -⟩
  rcases h with ⟨x, hx⟩ | ⟨y, hy⟩
  · cases hx
  · cases hy

theorem same_of_asDoubles (h : AsDoubles a b) : same a b = (a.toReal == b.toReal) := by
  rcases h with ⟨x, rfl⟩ | ⟨y, rfl⟩
  · rfl
  · cases a <;> rfl

theorem compare?_of_asDoubles (h : AsDoubles a b) :
    compare? a b = (height? a.toReal).bind fun k => (height? b.toReal).map (compare k) := by
  rw [← compareReal?_eq]
  rcases h with ⟨x, rfl⟩ | ⟨y, rfl⟩
  · rfl
  · cases a <;> rfl

theorem AsDoubles.compare?_eq_some_iff (h : AsDoubles a b) :
    compare? a b = some o ↔
      ∃ k l, height? a.toReal = some k ∧ height? b.toReal = some l ∧ compare k l = o := by
  rw [compare?_of_asDoubles h, Option.bind_eq_some_iff]
  simp only [Option.map_eq_some_iff]
  exact ⟨fun ⟨k, ha, l, hb, ho⟩ => ⟨k, l, ha, hb, ho⟩, fun ⟨k, l, ha, hb, ho⟩ => ⟨k, ha, l, hb, ho⟩⟩

theorem same_eq_true_iff (a b : Number) : same a b = true ↔ compare? a b = some .eq := by
  rcases int_or_asDoubles a b with ⟨i, j, rfl, rfl⟩ | h
  · change (i == j) = true ↔ some (compare i.toInt j.toInt) = some .eq
    rw [beq_iff_eq, Option.some.injEq, Int.compare_eq_eq, Int64.toInt_inj]
  · rw [same_of_asDoubles h, compare?_of_asDoubles h, beq_iff_compare, compare_eq_of_heights]

theorem compare?_swap (a b : Number) : compare? b a = (compare? a b).map Ordering.swap := by
  rcases int_or_asDoubles a b with ⟨i, j, rfl, rfl⟩ | h
  · exact congrArg some (Int.compare_swap _ _).symm
  · rw [compare?_of_asDoubles h, compare?_of_asDoubles h.symm]
    cases height? a.toReal with
    | none => cases height? b.toReal <;> rfl
    | some k =>
        cases height? b.toReal with
        | none => rfl
        | some l => exact congrArg some (Int.compare_swap _ _).symm

theorem same_comm (a b : Number) : same a b = same b a := by
  rw [Bool.eq_iff_iff, same_eq_true_iff, same_eq_true_iff, compare?_swap a b,
    Option.map_eq_some_iff]
  constructor
  · exact fun h => ⟨.eq, h, rfl⟩
  · rintro ⟨o, h, ho⟩
    cases o with
    | eq => exact h
    | lt | gt => cases ho

theorem compare?_eq_none_iff (a b : Number) :
    compare? a b = none ↔ a.toReal.isNaN = true ∨ b.toReal.isNaN = true := by
  rcases int_or_asDoubles a b with ⟨i, j, rfl, rfl⟩ | h
  · refine iff_of_false nofun ?_
    change ¬ ((toDouble i).isNaN = true ∨ (toDouble j).isNaN = true)
    rw [isNaN_toDouble, isNaN_toDouble]
    exact not_or.mpr ⟨Bool.false_ne_true, Bool.false_ne_true⟩
  · rw [compare?_of_asDoubles h, ← height?_eq_none_iff, ← height?_eq_none_iff]
    cases height? a.toReal <;> cases height? b.toReal <;> simp

theorem heights_le_of_lt (h : compare? a b = some .lt) :
    ∃ k l, height? a.toReal = some k ∧ height? b.toReal = some l ∧ k ≤ l := by
  rcases int_or_asDoubles a b with ⟨i, j, rfl, rfl⟩ | hreal
  · have hlt : i.toInt < j.toInt := Int.compare_eq_lt.mp (Option.some.inj h)
    exact exists_heights_of_le (Int.le_of_lt hlt)
  · obtain ⟨k, l, ha, hb, hkl⟩ := hreal.compare?_eq_some_iff.mp h
    exact ⟨k, l, ha, hb, Int.le_of_lt (Int.compare_eq_lt.mp hkl)⟩

theorem heights_eq_of_same (h : same a b = true) :
    ∃ k, height? a.toReal = some k ∧ height? b.toReal = some k := by
  rcases int_or_asDoubles a b with ⟨i, j, rfl, rfl⟩ | hreal
  · obtain rfl : i = j := beq_iff_eq.mp h
    obtain ⟨k, -, hk, -, -⟩ := exists_heights_of_le (Int.le_refl i.toInt)
    exact ⟨k, hk, hk⟩
  · obtain ⟨k, l, ha, hb, hkl⟩ := hreal.compare?_eq_some_iff.mp ((same_eq_true_iff a b).mp h)
    obtain rfl := Int.compare_eq_eq.mp hkl
    exact ⟨k, ha, hb⟩

theorem lt_of_heights_lt {k l : Int} (ha : height? a.toReal = some k)
    (hb : height? b.toReal = some l) (h : k < l) : compare? a b = some .lt := by
  rcases int_or_asDoubles a b with ⟨i, j, rfl, rfl⟩ | hreal
  · refine congrArg some (Int.compare_eq_lt.mpr ?_)
    by_contra hle
    obtain ⟨l', k', hb', ha', hle'⟩ := exists_heights_of_le (Int.not_lt.mp hle)
    obtain rfl := Option.some.inj (ha.symm.trans ha')
    obtain rfl := Option.some.inj (hb.symm.trans hb')
    omega
  · exact hreal.compare?_eq_some_iff.mpr ⟨k, l, ha, hb, Int.compare_eq_lt.mpr h⟩

theorem exists_ints_of_heights_eq {k : Int} (h : compare? a b = some .lt)
    (ha : height? a.toReal = some k) (hb : height? b.toReal = some k) :
    ∃ i j, a = .int i ∧ b = .int j ∧ i.toInt < j.toInt := by
  rcases int_or_asDoubles a b with ⟨i, j, rfl, rfl⟩ | hreal
  · exact ⟨i, j, rfl, rfl, Int.compare_eq_lt.mp (Option.some.inj h)⟩
  · obtain ⟨k', l', ha', hb', hlt⟩ := hreal.compare?_eq_some_iff.mp h
    obtain rfl := Option.some.inj (ha.symm.trans ha')
    obtain rfl := Option.some.inj (hb.symm.trans hb')
    exact absurd (Int.compare_eq_lt.mp hlt) (Int.lt_irrefl k)

theorem Merged.exists_height (h : Merged a b) :
    ∃ k, height? a.toReal = some k ∧ height? b.toReal = some k := by
  obtain ⟨i, j, rfl, rfl, -, heq⟩ := h
  exact beq_iff_heights.mp heq

theorem Merged.le_natAbs (h : Merged a b) :
    2 ^ 53 ≤ a.toWord.toInt.natAbs ∧ 2 ^ 53 ≤ b.toWord.toInt.natAbs := by
  obtain ⟨i, j, rfl, rfl, hne, heq⟩ := h
  exact le_natAbs_of_signedPlace_eq (mt Int64.toInt_inj.mp hne) ((toDouble_beq_iff i j).mp heq)

theorem lt_trans (hab : compare? a b = some .lt) (hbc : compare? b c = some .lt) :
    compare? a c = some .lt := by
  obtain ⟨k, l, ha, hb, hkl⟩ := heights_le_of_lt hab
  obtain ⟨l', m, hb', hc, hlm⟩ := heights_le_of_lt hbc
  obtain rfl := Option.some.inj (hb.symm.trans hb')
  rcases Int.lt_or_eq_of_le (Int.le_trans hkl hlm) with hlt | rfl
  · exact lt_of_heights_lt ha hc hlt
  -- all three have one double, so both steps went by the integers
  · obtain rfl := Int.le_antisymm hkl hlm
    obtain ⟨i, j, rfl, rfl, hij⟩ := exists_ints_of_heights_eq hab ha hb
    obtain ⟨j', n, hj, rfl, hjn⟩ := exists_ints_of_heights_eq hbc hb hc
    cases hj
    exact congrArg some (Int.compare_eq_lt.mpr (Int.lt_trans hij hjn))

theorem same_trans_iff (hab : same a b = true) (hbc : same b c = true) :
    same a c = true ↔ ¬ Merged a c := by
  obtain ⟨k, ha, hb⟩ := heights_eq_of_same hab
  obtain ⟨k', hb', hc⟩ := heights_eq_of_same hbc
  obtain rfl := Option.some.inj (hb.symm.trans hb')
  rcases int_or_asDoubles a c with ⟨i, j, rfl, rfl⟩ | hreal
  · have hdouble : (toDouble i == toDouble j) = true := beq_iff_heights.mpr ⟨k, ha, hc⟩
    constructor
    · rintro hij ⟨_, _, ⟨⟩, ⟨⟩, hne, -⟩
      exact hne (beq_iff_eq.mp hij)
    · intro hmerged
      by_contra hij
      exact hmerged ⟨i, j, rfl, rfl, mt beq_iff_eq.mpr hij, hdouble⟩
  · refine iff_of_true ?_ hreal.not_merged
    rw [same_of_asDoubles hreal]
    exact beq_iff_heights.mpr ⟨k, ha, hc⟩

theorem lt_of_lt_of_same_iff (hab : compare? a b = some .lt) (hbc : same b c = true) :
    compare? a c = some .lt ↔ ¬ (Merged a b ∧ ∃ x, c = .real x) := by
  obtain ⟨k, l, ha, hb, hkl⟩ := heights_le_of_lt hab
  obtain ⟨l', hb', hc⟩ := heights_eq_of_same hbc
  obtain rfl := Option.some.inj (hb.symm.trans hb')
  rcases Int.lt_or_eq_of_le hkl with hlt | rfl
  · refine iff_of_true (lt_of_heights_lt ha hc hlt) ?_
    rintro ⟨hmerged, -⟩
    obtain ⟨m, ha', hb'⟩ := hmerged.exists_height
    obtain rfl := Option.some.inj (ha.symm.trans ha')
    obtain rfl := Option.some.inj (hb.symm.trans hb')
    exact Int.lt_irrefl _ hlt
  · obtain ⟨i, j, rfl, rfl, hij⟩ := exists_ints_of_heights_eq hab ha hb
    cases c with
    | int n =>
        obtain rfl : j = n := beq_iff_eq.mp hbc
        exact iff_of_true hab fun ⟨_, _, hx⟩ => nomatch hx
    | real x =>
        refine iff_of_false (fun hlt => ?_) (not_not.mpr ⟨⟨i, j, rfl, rfl, ?_, ?_⟩, x, rfl⟩)
        · obtain ⟨_, _, -, hx, -⟩ := exists_ints_of_heights_eq hlt ha hc
          cases hx
        · rintro rfl
          exact Int.lt_irrefl _ hij
        · exact beq_iff_heights.mpr ⟨k, ha, hb⟩

/-- Comparison is an order but for integers of one double: where these meet over a double, they are
equal to it and not to each other. -/
theorem comparison_laws (a b c : Number) :
    (same a b = true ↔ compare? a b = some .eq) ∧
    same a b = same b a ∧
    compare? b a = (compare? a b).map Ordering.swap ∧
    (compare? a b = none ↔ a.toReal.isNaN = true ∨ b.toReal.isNaN = true) ∧
    (compare? a b = some .lt → compare? b c = some .lt → compare? a c = some .lt) ∧
    (same a b = true → same b c = true → (same a c = true ↔ ¬ Merged a c)) ∧
    (compare? a b = some .lt → same b c = true →
      (compare? a c = some .lt ↔ ¬ (Merged a b ∧ ∃ x, c = .real x))) ∧
    (Merged a b → 2 ^ 53 ≤ a.toWord.toInt.natAbs ∧ 2 ^ 53 ≤ b.toWord.toInt.natAbs) :=
  ⟨same_eq_true_iff a b, same_comm a b, compare?_swap a b, compare?_eq_none_iff a b, lt_trans,
    same_trans_iff, lt_of_lt_of_same_iff, Merged.le_natAbs⟩

theorem comparison_laws_past_bits :
    compare? (.int 9007199254740992) (.real 9007199254740994) = some .lt ∧
    (same (.int 9007199254740993) (.int 9007199254740992) = true ↔
      ¬ Merged (.int 9007199254740993) (.int 9007199254740992)) ∧
    (compare? (.int 9007199254740992) (.real 9007199254740992) = some .lt ↔
      ¬ (Merged (.int 9007199254740992) (.int 9007199254740993) ∧
        ∃ x, Number.real 9007199254740992 = .real x)) ∧
    2 ^ 53 ≤ (toWord (.int 9007199254740993)).toInt.natAbs ∧
    2 ^ 53 ≤ (toWord (.int 9007199254740992)).toInt.natAbs := by
  obtain ⟨-, -, -, -, htrans, -⟩ :=
    comparison_laws (.int 9007199254740992) (.int 9007199254740993) (.real 9007199254740994)
  obtain ⟨-, -, -, -, -, hsame, -⟩ :=
    comparison_laws (.int 9007199254740993) (.real 9007199254740992) (.int 9007199254740992)
  obtain ⟨-, -, -, -, -, -, hmixed, -⟩ :=
    comparison_laws (.int 9007199254740992) (.int 9007199254740993) (.real 9007199254740992)
  obtain ⟨-, -, -, -, -, -, -, hbits⟩ :=
    comparison_laws (.int 9007199254740993) (.int 9007199254740992) zero
  refine ⟨htrans ?_ ?_, hsame ?_ ?_, hmixed ?_ ?_, hbits ⟨_, _, rfl, rfl, ?_, ?_⟩⟩
  all_goals decide +kernel

theorem same_not_transitive :
    same (.int 9007199254740993) (.real 9007199254740992) = true ∧
    same (.real 9007199254740992) (.int 9007199254740992) = true ∧
    same (.int 9007199254740993) (.int 9007199254740992) = false ∧
    compare? (.int 9007199254740992) (.int 9007199254740993) = some .lt ∧
    compare? (.int 9007199254740992) (.real 9007199254740992) = some .eq := by
  decide +kernel

end Number

end DiceTray
