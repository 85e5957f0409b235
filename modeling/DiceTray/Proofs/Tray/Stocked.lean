import DiceTray.Proofs.Tray.Session

namespace DiceTray

namespace Token

def readable (t : Token) : Bool := t.kind != .dice || (Notation.ofText? t.data).isSome

def poolTokens (ts : List Token) : List Token := ts.filter fun t => t.kind.isPool

end Token

def Notation.blank (source : String) : Notation → Pool
  | .fixed value => ⟨source, .fixed value⟩
  | .dice count faces => ⟨source, .dice { count, faces }⟩

theorem Notation.denotation_blank (source : String) (n : Notation) :
    Pool.denotation (n.blank source) = n := by
  cases n <;> rfl

namespace Token

def blank? (t : Token) : Option Pool :=
  match t.kind with
  | .stunt => some ⟨t.text, .stunt { count := 3, faces := ⟨1, 6⟩ }⟩
  | _ => (Notation.ofText? t.data).map (Notation.blank t.text)

theorem blank?_cases {t : Token} {b : Pool} (h : t.blank? = some b) :
    (t.kind = .stunt ∧ b = ⟨t.text, .stunt { count := 3, faces := ⟨1, 6⟩ }⟩) ∨
      (t.kind ≠ .stunt ∧ ∃ n, Notation.ofText? t.data = some n ∧ b = n.blank t.text) := by
  unfold blank? at h
  split at h
  case h_1 hk =>
      cases h
      exact .inl ⟨hk, rfl⟩
  case h_2 hk =>
      obtain ⟨n, hn, rfl⟩ := Option.map_eq_some_iff.mp h
      exact .inr ⟨hk, n, hn, rfl⟩

theorem reading_of_ne_stunt {t : Token} (h : t.kind ≠ .stunt) :
    t.reading = Notation.read t.data := by
  unfold reading
  split
  case h_1 hk => exact absurd hk h
  case h_2 => rfl

theorem reading_of_blank? {t : Token} {b : Pool} (h : t.blank? = some b) :
    t.reading = .ok (Pool.denotation b) := by
  rcases blank?_cases h with ⟨hk, rfl⟩ | ⟨hk, n, hn, rfl⟩
  · rw [reading, hk]
    rfl
  · rw [reading_of_ne_stunt hk, Notation.read, hn, Notation.denotation_blank]

theorem isSome_blank? {t : Token} (h : t.kind.isPool = true) : t.blank?.isSome = t.readable := by
  rcases t with ⟨kind, text, data, conditions⟩
  cases kind <;> simp_all [blank?, readable, TokenKind.isPool]

theorem blank?_eq_none {t : Token} (h : t.readable = false) : t.blank? = none := by
  rcases t with ⟨kind, text, data, conditions⟩
  cases kind <;> simp_all [blank?, readable]

theorem isPool_of_not_readable {t : Token} (h : t.readable = false) : t.kind.isPool = true := by
  rcases t with ⟨kind, text, data, conditions⟩
  cases kind <;> simp_all [readable, TokenKind.isPool]

theorem readable_of_not_isPool {t : Token} (h : t.kind.isPool = false) : t.readable = true := by
  cases ht : t.readable with
  | true => rfl
  | false => cases h.symm.trans (isPool_of_not_readable ht)

theorem poolTokens_append (ts us : List Token) :
    poolTokens (ts ++ us) = poolTokens ts ++ poolTokens us :=
  List.filter_append ..

theorem poolTokens_cons_of_isPool {t : Token} (h : t.kind.isPool = true) (ts : List Token) :
    poolTokens (t :: ts) = t :: poolTokens ts :=
  List.filter_cons_of_pos h

theorem poolTokens_cons_of_not_isPool {t : Token} (h : t.kind.isPool = false) (ts : List Token) :
    poolTokens (t :: ts) = poolTokens ts :=
  List.filter_cons_of_neg (by simp [h])

end Token

namespace Pool

variable {σ : Type}

def blank (p : Pool) : Pool := p.cleared.plain

theorem denotation_blank (p : Pool) : denotation p.blank = denotation p := by
  rcases p with ⟨source, value | d | d⟩ <;> rfl

theorem blank_judged (t : Token) (p : Pool) : (p.judged t).blank = p.blank := by
  unfold judged
  split
  · rfl
  · rcases p with ⟨source, value | d | d⟩ <;> rfl

theorem blank_modified (word : ModifierWord) (t : Token) (p : Pool) :
    (p.modified word t).blank = p.blank := by
  rcases p with ⟨source, value | d | d⟩ <;> rfl

theorem blank_attached (t : Token) (p : Pool) : (p.attached t).blank = p.blank := by
  unfold attached
  split
  · exact blank_modified ..
  · rfl

theorem blank_dressed (ts : List Token) (p : Pool) : (p.dressed ts).blank = p.blank := by
  induction ts generalizing p with
  | nil => rfl
  | cons t ts ih => exact (ih (p.attached t)).trans (blank_attached t p)

theorem create_of_ne_stunt {t : Token} (h : t.kind ≠ .stunt) (r : Roller σ) (s : σ) :
    Pass.create r t s = Pool.read r t.text t.data s := by
  unfold Pass.create
  split
  case h_1 hk => exact absurd hk h
  case h_2 => rfl

theorem exists_of_blank? {t : Token} {b : Pool} (h : t.blank? = some b) (r : Roller σ) (s : σ) :
    ∃ pool s', Pass.create r t s = .ok (pool, s') ∧ pool.blank = b := by
  rcases Token.blank?_cases h with ⟨hk, rfl⟩ | ⟨hk, n, hn, rfl⟩
  · exact ⟨_, _, by rw [Pass.create, hk], rfl⟩
  · refine ⟨_, _, by rw [create_of_ne_stunt hk, Pool.read, Notation.read, hn]; rfl, ?_⟩
    cases n <;> rfl

theorem create_of_not_readable {t : Token} (h : t.readable = false) (r : Roller σ) (s : σ) :
    Pass.create r t s = .error (.invalidNotation t.data) := by
  have hn : t.kind ≠ .stunt ∧ Notation.ofText? t.data = none := by
    simp_all [Token.readable]
  rw [create_of_ne_stunt hn.1, Pool.read, Notation.read, hn.2]
  rfl

end Pool

def Stocked (us : List Token) (ps : List Pool) : Prop :=
  (ps.map fun p => some p.blank) <+: us.map Token.blank?

section

variable {us : List Token} {u : Token} {ps qs : List Pool} {p : Pool}

theorem stocked_nil (us : List Token) : Stocked us [] := List.nil_prefix

theorem Stocked.length_le (h : Stocked us ps) : ps.length ≤ us.length := by
  simpa using List.IsPrefix.length_le h

theorem Stocked.map_eq (h : Stocked us ps) (hlen : us.length ≤ ps.length) :
    (ps.map fun p => some p.blank) = us.map Token.blank? :=
  List.IsPrefix.eq_of_length_le h (by simpa using hlen)

theorem stocked_of_map_eq (h : (ps.map fun p => some p.blank) = us.map Token.blank?)
    (later : List Token) : Stocked (us ++ later) ps := by
  rw [Stocked, h, List.map_append]
  exact List.prefix_append ..

theorem map_blank_of_map_cleared (h : qs.map Pool.cleared = ps.map Pool.cleared) :
    qs.map Pool.blank = ps.map Pool.blank := by
  have hplain := congrArg (List.map Pool.plain) h
  rwa [List.map_map, List.map_map] at hplain

theorem stocked_of_map_blank (h : qs.map Pool.blank = ps.map Pool.blank) (hps : Stocked us ps) :
    Stocked us qs := by
  have hsome : (qs.map fun p => some p.blank) = ps.map fun p => some p.blank := by
    simpa [Function.comp_def] using congrArg (List.map some) h
  rw [Stocked, hsome]
  exact hps

theorem Stocked.blank?_eq (h : Stocked us ps) {i : Nat} (hu : us[i]? = some u)
    (hp : ps[i]? = some p) : u.blank? = some p.blank := by
  obtain ⟨rest, hrest⟩ := h
  have hi := congrArg (fun l => l[i]?) hrest
  have hlt : i < (ps.map fun p => some p.blank).length := by
    simpa using (List.getElem?_eq_some_iff.mp hp).1
  simpa [List.getElem?_append_left hlt, hu, hp] using hi.symm

theorem stocked_concat (h : Stocked us ps) (hu : us[ps.length]? = some u)
    (hp : u.blank? = some p.blank) : Stocked us (ps ++ [p]) := by
  obtain ⟨rest, hrest⟩ := h
  have hi := congrArg (fun l => l[ps.length]?) hrest
  have hlen : (ps.map fun p => some p.blank).length = ps.length := List.length_map ..
  simp only [List.getElem?_map, hu, Option.map_some, hp,
    List.getElem?_append_right (Nat.le_of_eq hlen), hlen, Nat.sub_self] at hi
  obtain ⟨tail, rfl⟩ : ∃ tail, rest = some p.blank :: tail := by
    cases rest with
    | nil => cases hi
    | cons x tail => exact ⟨tail, by simpa using hi⟩
  exact ⟨tail, by simpa using hrest⟩

theorem Stocked.before_of_blank?_eq_none {before after : List Token} (hu : u.blank? = none)
    (h : Stocked (before ++ u :: after) ps) : Stocked before ps := by
  have hle : ps.length ≤ before.length := by
    by_contra hlt
    have hp := List.getElem?_eq_getElem (Nat.not_le.mp hlt)
    have hi : (before ++ u :: after)[before.length]? = some u := by simp
    have hb := h.blank?_eq hi hp
    rw [hu] at hb
    cases hb
  rw [Stocked, List.map_append] at h
  exact List.prefix_of_prefix_length_le h (List.prefix_append ..) (by simpa using hle)

end

namespace Pass

variable {σ : Type} {r : Roller σ} {t : Token} {us later : List Token} {p q : Pass σ}

structure Abreast (us later : List Token) (p : Pass σ) : Prop where
  met : p.met = us.length
  room : p.met ≤ p.pools.length
  stocked : Stocked (us ++ later) p.pools

theorem blank_dressAt (met : Nat) (ts : List Token) (ps : List Pool) :
    (dressAt met ts ps).map Pool.blank = ps.map Pool.blank := by
  cases met with
  | zero => rfl
  | succ i => exact map_modify_eq (Pool.blank_dressed ts) ..

theorem abreast_of_map_blank (h : Abreast us later p) (hm : q.met = p.met)
    (hb : q.pools.map Pool.blank = p.pools.map Pool.blank) : Abreast us later q := by
  have hlen : q.pools.length = p.pools.length := by simpa using congrArg List.length hb
  exact ⟨hm.trans h.met, hm ▸ hlen ▸ h.room, stocked_of_map_blank hb h.stocked⟩

theorem abreast_step_apart (h : Abreast us later p) (ht : t.kind.isPool = false) :
    ∃ q, p.step r t = .ok q ∧ Abreast us later q := by
  obtain ⟨q, hq, hm, hc⟩ := step_apart (r := r) ht p
  refine ⟨q, hq, abreast_of_map_blank h hm ?_⟩
  rw [map_blank_of_map_cleared hc, blank_dressAt]

theorem exists_provided {b : Pool} (hb : t.blank? = some b) (h : Abreast us (t :: later) p) :
    ∃ q, p.provide r t = .ok q ∧ Abreast us (t :: later) q ∧ q.met < q.pools.length := by
  unfold provide
  split
  case isTrue hlt => exact ⟨p, rfl, h, hlt⟩
  case isFalse hge =>
      obtain ⟨pool, s, hc, rfl⟩ := Pool.exists_of_blank? hb r p.source
      have hlen : p.pools.length = us.length := by
        have hroom := h.room
        have hmet := h.met
        omega
      have hlast : (p.pools ++ [pool]).length = p.pools.length + 1 := by simp
      have hmade := stocked_concat h.stocked (u := t) (p := pool) (by simp [hlen]) hb
      refine ⟨{ p with pools := p.pools ++ [pool], source := s }, by rw [hc]; rfl, ?_, ?_⟩
      · exact ⟨h.met, Nat.le_trans h.room (by simp), hmade⟩
      · simp only [hlast]
        exact Nat.lt_succ_of_le (h.met ▸ Nat.le_of_eq hlen.symm)

theorem meet_of_provide (h : p.provide r t = .ok q) :
    p.meet r t = .ok { (q.condition t).push (.pool (q.condition t).met) with
      met := (q.condition t).met + 1 } := by
  rw [meet, h]
  rfl

theorem abreast_step_isPool {b : Pool} (ht : t.kind.isPool = true) (hb : t.blank? = some b)
    (h : Abreast us (t :: later) p) :
    ∃ q, p.step r t = .ok q ∧ Abreast (us ++ [t]) later q := by
  obtain ⟨p₁, hp₁, h₁, hlt⟩ := exists_provided (r := r) hb h
  have hq := (step_of_isPool ht).trans (meet_of_provide hp₁)
  obtain ⟨hm, -, -⟩ := condition_frame t p₁
  have hc : (p₁.condition t).pools.map Pool.blank = p₁.pools.map Pool.blank := by
    rw [pools_condition]
    exact map_modify_eq (Pool.blank_judged t) ..
  have hlen : (p₁.condition t).pools.length = p₁.pools.length := by
    simpa using congrArg List.length hc
  refine ⟨_, hq, ?_, ?_, ?_⟩
  · simp [hm, h₁.met]
  · simp only [push, hm, hlen]
    exact hlt
  · rw [List.append_assoc]
    exact stocked_of_map_blank hc h₁.stocked

theorem abreast_step (h : Abreast us (Token.poolTokens (t :: later)) p) (ht : t.readable = true) :
    ∃ q, p.step r t = .ok q ∧
      Abreast (us ++ Token.poolTokens [t]) (Token.poolTokens later) q := by
  cases hk : t.kind.isPool with
  | true =>
      obtain ⟨b, hb⟩ := Option.isSome_iff_exists.mp ((Token.isSome_blank? hk).trans ht)
      rw [Token.poolTokens_cons_of_isPool hk] at h ⊢
      exact abreast_step_isPool hk hb h
  | false =>
      rw [Token.poolTokens_cons_of_not_isPool hk] at h ⊢
      obtain ⟨q, hq, ha⟩ := abreast_step_apart (r := r) h hk
      exact ⟨q, hq, by simpa [Token.poolTokens] using ha⟩

theorem abreast_run {ts : List Token} (h : Abreast us (Token.poolTokens ts) p)
    (hts : ∀ t ∈ ts, t.readable = true) :
    ∃ q, p.run r ts = (none, q) ∧ Abreast (us ++ Token.poolTokens ts) [] q := by
  induction ts generalizing us p with
  | nil =>
      refine ⟨p, rfl, ?_⟩
      simpa [Token.poolTokens] using h
  | cons t ts ih =>
      obtain ⟨p', hp', ha⟩ := abreast_step (r := r) h (hts t (by simp))
      obtain ⟨q, hq, haq⟩ := ih ha fun u hu => hts u (by simp [hu])
      refine ⟨q, (run_cons_ok hp').trans hq, ?_⟩
      have hsplit : Token.poolTokens (t :: ts) = Token.poolTokens [t] ++ Token.poolTokens ts :=
        Token.poolTokens_append [t] ts
      rw [hsplit, ← List.append_assoc]
      exact haq

theorem Abreast.map_blank (h : Abreast us [] p) :
    (p.pools.map fun pool => some pool.blank) = us.map Token.blank? := by
  have hs := h.stocked
  rw [List.append_nil] at hs
  exact hs.map_eq (h.met ▸ h.room)

theorem abreast_start {t : Tray} (h : Stocked us t.pools) (s : σ) :
    Abreast [] us (t.start s) :=
  ⟨rfl, Nat.zero_le _, h⟩

theorem step_of_not_readable (h : Abreast us [] p) (ht : t.readable = false) :
    p.step r t = .error (.invalidNotation t.data) := by
  have hlen : p.pools.length = p.met := by
    have hmap := congrArg List.length h.map_blank
    simp only [List.length_map] at hmap
    exact hmap.trans h.met.symm
  rw [step_of_isPool (Token.isPool_of_not_readable ht), meet, provide, if_neg (by omega),
    Pool.create_of_not_readable ht r p.source]
  rfl

end Pass

end DiceTray
