import Mathlib.Order.Filter.AtTopBot.Basic

/-!
# Recursive definitions and fuel

The meaning of a group of recursive functions is the limit of its unfoldings,
where a function that is unfolded too often has no result. Fuel replaces the
missing results by a special one, which the functions may only pass on. The two
agree if the step of the definition follows its calls: what it computes from
the results of some calls, it computes as soon as these calls have results.
-/

namespace Aeneas.Fuel

open Filter

/-! ## Results which are attained by a family -/

section
variable {ι V W : Type} {l : Filter ι} {bad : V → Prop} {badW : W → Prop}

/-- If `r` is a result which is not `bad`, then the family has it, eventually. -/
def Attains (bad : V → Prop) (l : Filter ι) (r : Option V) (s : ι → Option V) : Prop :=
  ∀ v, r = some v → ¬ bad v → ∀ᶠ i in l, s i = some v

theorem Attains.const (r : Option V) : Attains bad l r fun _ => r := by
  intro v hv _
  exact Eventually.of_forall fun _ => hv

theorem Attains.bind {r : Option V} {s : ι → Option V} {k : V → Option W} {k' : ι → V → Option W}
    (h : Attains bad l r s) (hbad : ∀ v w, bad v → k v = some w → badW w)
    (hk : ∀ v, Attains badW l (k v) fun i => k' i v) :
    Attains badW l (r.bind k) fun i => (s i).bind (k' i) := by
  intro w hw hnot
  obtain ⟨v, rfl, hv⟩ := Option.bind_eq_some_iff.mp hw
  have hgood : ¬ bad v := fun hb => hnot (hbad v w hb hv)
  filter_upwards [h v rfl hgood, hk v w hv hnot] with i hi hi'
  rw [hi, Option.bind_some, hi']

end

/-! ## Unfoldings -/

abbrev Calls (K A V : Type) := K → A → Option V

section
variable {K A V : Type}

def Follows {ι : Type} (bad : V → Prop) (l : Filter ι) (L : Calls K A V) (F : ι → Calls K A V) : Prop :=
  ∀ f a, Attains bad l (L f a) fun i => F i f a

/-- What the step computes from some calls, it computes from all those that follow them. -/
def Tame (bad : V → Prop) (step : Calls K A V → Calls K A V) : Prop :=
  ∀ {ι : Type} (l : Filter ι) (L : Calls K A V) (F : ι → Calls K A V), Follows bad l L F →
    Follows bad l (step L) fun i => step (F i)

def unfold (step : Calls K A V → Calls K A V) : Nat → Calls K A V
  | 0 => fun _ _ => none
  | k + 1 => step (unfold step k)

def Returns (step : Calls K A V → Calls K A V) (f : K) (a : A) (v : V) : Prop := ∃ k, unfold step k f a = some v

theorem follows_pure {bad : V → Prop} {L F : Calls K A V} :
    Follows bad (pure ()) L (fun _ => F) ↔ ∀ f a v, L f a = some v → ¬ bad v → F f a = some v := by
  simp only [Follows, Attains, eventually_pure]

end

/-! ## Fuel -/

section
variable {K A V : Type} {out : V → Prop} {L L' : Calls K A V} {F G : Nat → Calls K A V}

/-- The functions with fuel agree with the ones without fuel, but for the results that stand for
a lack of fuel. -/
structure Adequate (out : V → Prop) (L : Calls K A V) (F : Nat → Calls K A V) : Prop where
  sound : ∀ n f a v, F n f a = some v → ¬ out v → L f a = some v
  mono : ∀ n m, n ≤ m → ∀ f a v, F n f a = some v → ¬ out v → F m f a = some v
  complete : Follows (fun _ => False) atTop L F

theorem adequate_none : Adequate out (fun _ _ => none : Calls K A V) fun _ _ _ => none where
  sound := nofun
  mono := nofun
  complete := nofun

theorem Adequate.step {step : Calls K A V → Calls K A V} (hout : Tame out step) (htame : Tame (fun _ => False) step)
    (h : Adequate out L F) : Adequate out (step L) fun n => step (F n) where
  sound n := follows_pure.mp (hout _ _ _ (follows_pure.mpr (h.sound n)))
  mono n m hnm := follows_pure.mp (hout _ _ _ (follows_pure.mpr (h.mono n m hnm)))
  complete := htame _ _ _ h.complete

/-- The recursive functions give up with the result of `empty` if there is no fuel left, and leave
one unit less to their bodies. -/
def decrease (isRec : K → Bool) (empty : Calls K A V) (F : Nat → Calls K A V) : Nat → Calls K A V
  | 0, f, a => if isRec f then empty f a else F 0 f a
  | n + 1, f, a => if isRec f then F n f a else F (n + 1) f a

theorem Adequate.decrease {isRec : K → Bool} {empty : Calls K A V} (hempty : ∀ f a v, empty f a = some v → out v)
    (h : Adequate out L F) : Adequate out L (decrease isRec empty F) where
  sound n f a v hv hgood := by
    cases hrec : isRec f with
    | false => cases n <;> exact h.sound _ f a v (by simpa [Fuel.decrease, hrec] using hv) hgood
    | true =>
      cases n with
      | zero => exact absurd (hempty f a v (by simpa [Fuel.decrease, hrec] using hv)) hgood
      | succ n => exact h.sound n f a v (by simpa [Fuel.decrease, hrec] using hv) hgood
  mono n m hnm f a v hv hgood := by
    cases hrec : isRec f with
    | false =>
      have hF : ∀ k, Fuel.decrease isRec empty F k f a = F k f a := by
        intro k
        cases k <;> simp [Fuel.decrease, hrec]
      rw [hF] at hv ⊢
      exact h.mono n m hnm f a v hv hgood
    | true =>
      cases n with
      | zero => exact absurd (hempty f a v (by simpa [Fuel.decrease, hrec] using hv)) hgood
      | succ n =>
        obtain ⟨m, rfl⟩ := Nat.exists_eq_add_of_lt hnm
        simp only [Fuel.decrease, hrec, if_true] at hv ⊢
        exact h.mono n (n + m) (by omega) f a v hv hgood
  complete f a v hv hnot := by
    have hev := h.complete f a v hv hnot
    obtain ⟨n, hn⟩ := eventually_atTop.mp hev
    refine eventually_atTop.mpr ⟨n + 1, fun m hm => ?_⟩
    obtain ⟨m, rfl⟩ := Nat.exists_eq_add_of_lt hm
    cases hrec : isRec f with
    | false | true => simpa [Fuel.decrease, hrec] using hn _ (by omega)

def choose (own : K → Bool) (L L' : Calls K A V) : Calls K A V := fun f a => if own f then L f a else L' f a

theorem Adequate.choose {own : K → Bool} (h : Adequate out L F) (h' : Adequate out L' G) :
    Adequate out (choose own L L') fun n => choose own (F n) (G n) where
  sound n f a v := by
    unfold Fuel.choose
    cases own f with
    | true => exact h.sound n f a v
    | false => exact h'.sound n f a v
  mono n m hnm f a v := by
    unfold Fuel.choose
    cases own f with
    | true => exact h.mono n m hnm f a v
    | false => exact h'.mono n m hnm f a v
  complete f a := by
    simp only [Fuel.choose]
    cases own f with
    | true => exact h.complete f a
    | false => exact h'.complete f a

end

/-! ## Adequacy of the fuel -/

section
variable {K A V : Type} (own isRec : K → Bool) (empty : Calls K A V) (step : Calls K A V → Calls K A V)
  (ext : Calls K A V) (fuelExt : Nat → Calls K A V)

def groupStep (L : Calls K A V) : Calls K A V := choose own (step L) ext

def fuelUnfold : Nat → Nat → Calls K A V
  | 0, _ => fun _ _ => none
  | k + 1, n => choose own (decrease isRec empty (fun n => step (fuelUnfold k n)) n) (fuelExt n)

variable {own isRec empty step ext fuelExt} {out : V → Prop}

section
variable {ι : Type} {l : Filter ι} {bad : V → Prop}

theorem follows_choose {L : Calls K A V} {F : ι → Calls K A V} (h : Follows bad l L F) :
    Follows bad l (choose own L ext) fun i => choose own (F i) ext := by
  intro f a
  simp only [choose]
  cases own f with
  | true => exact h f a
  | false => exact .const _

theorem follows_decrease {F : Nat → Calls K A V} {G : ι → Nat → Calls K A V}
    (h : ∀ n, Follows bad l (F n) fun i => G i n) (n : Nat) :
    Follows bad l (decrease isRec empty F n) fun i => decrease isRec empty (G i) n := by
  intro f a
  cases n with
  | zero =>
    simp only [decrease]
    cases isRec f with
    | true => exact .const _
    | false => exact h 0 f a
  | succ n =>
    simp only [decrease]
    cases isRec f with
    | true => exact h n f a
    | false => exact h (n + 1) f a

end

variable (own isRec) in
theorem adequate_unfold (hout : Tame out step) (htame : Tame (fun _ => False) step)
    (hempty : ∀ f a v, empty f a = some v → out v) (hext : Adequate out ext fuelExt) :
    ∀ k, Adequate out (unfold (groupStep own step ext) k) (fuelUnfold own isRec empty step fuelExt k)
  | 0 => adequate_none
  | k + 1 => ((adequate_unfold hout htame hempty hext k).step hout htame |>.decrease hempty).choose hext

theorem fuelUnfold_succ (htame : Tame (fun _ => False) step) : ∀ k n, Follows (fun _ => False) (pure ())
    (fuelUnfold own isRec empty step fuelExt k n) fun _ => fuelUnfold own isRec empty step fuelExt (k + 1) n
  | 0, _ => follows_pure.mpr nofun
  | k + 1, n => follows_choose (follows_decrease (fun n => htame _ _ _ (fuelUnfold_succ htame k n)) n)

theorem fuelUnfold_mono (htame : Tame (fun _ => False) step) {k k' n : Nat} (hk : k ≤ k') {f : K} {a : A} {v : V}
    (h : fuelUnfold own isRec empty step fuelExt k n f a = some v) :
    fuelUnfold own isRec empty step fuelExt k' n f a = some v := by
  induction hk with
  | refl => exact h
  | step _ ih => exact follows_pure.mp (fuelUnfold_succ htame _ n) f a v ih not_false

variable (own isRec) in
/-- A result with some fuel, but for a lack of fuel, is the one without fuel, and the only one with more fuel; a
result without fuel is the one with some fuel. -/
theorem fuel_adequate (hout : Tame out step) (htame : Tame (fun _ => False) step)
    (hempty : ∀ f a v, empty f a = some v → out v) (hext : Adequate out ext fuelExt) (f : K) (a : A) :
    (∀ n v, (∃ k, fuelUnfold own isRec empty step fuelExt k n f a = some v) → ¬ out v →
      Returns (groupStep own step ext) f a v ∧
      ∀ m, n ≤ m → ∀ w, (∃ k, fuelUnfold own isRec empty step fuelExt k m f a = some w) ↔ w = v) ∧
    (∀ v, Returns (groupStep own step ext) f a v →
      ∃ n k, fuelUnfold own isRec empty step fuelExt k n f a = some v) := by
  have hadequate := adequate_unfold own isRec hout htame hempty hext
  constructor
  · rintro n v ⟨k, hk⟩ hgood
    refine ⟨⟨k, (hadequate k).sound n f a v hk hgood⟩, fun m hnm w => ?_⟩
    have hkm := (hadequate k).mono n m hnm f a v hk hgood
    constructor
    · rintro ⟨k', hk'⟩
      have h₁ := fuelUnfold_mono htame (Nat.le_max_left k k') hkm
      have h₂ := fuelUnfold_mono htame (Nat.le_max_right k k') hk'
      exact Option.some.inj (h₂.symm.trans h₁)
    · rintro rfl
      exact ⟨k, hkm⟩
  · rintro v ⟨k, hk⟩
    obtain ⟨n, hn⟩ := ((hadequate k).complete f a v hk not_false).exists
    exact ⟨n, k, hn⟩

end

/-! ## Computations with a bound on their depth -/

section
variable {ε α β β' γ γ' : Type} {out : ε}

/-- From some depth on the result is the same, and it is not the lack of depth. -/
def Settles (out : ε) (f : Nat → Except ε α) : Prop := ∃ r, r ≠ .error out ∧ ∃ N, ∀ n, N ≤ n → f n = r

variable {r : Except ε α}

theorem settles_const (h : r ≠ .error out) : Settles out fun _ => r := ⟨r, h, 0, fun _ _ => rfl⟩

theorem settles_ok (a : α) : Settles out fun _ => (.ok a : Except ε α) :=
  settles_const fun h => by cases h

variable {f : Nat → Except ε α}

theorem settles_succ (h : Settles out fun n => f (n + 1)) : Settles out f := by
  obtain ⟨r, hr, N, hN⟩ := h
  refine ⟨r, hr, N + 1, fun n hn => ?_⟩
  obtain ⟨m, rfl⟩ : ∃ m, n = m + 1 := ⟨n - 1, by omega⟩
  exact hN m (by omega)

variable {k : Nat → α → Except ε β}

theorem Settles.bind (h : Settles out f)
    (hk : ∀ n a, f n = .ok a → Settles out fun n => k n a) : Settles out fun n => f n >>= k n := by
  obtain ⟨r, hr, N, hN⟩ := h
  cases r with
  | error e =>
    refine ⟨.error e, fun h => hr (congrArg Except.error (Except.error.inj h)), N, fun n hn => ?_⟩
    change f n >>= k n = _
    rw [hN n hn]
    rfl
  | ok a =>
    obtain ⟨r', hr', N', hN'⟩ := hk N a (hN N (Nat.le_refl _))
    refine ⟨r', hr', max N N', fun n hn => ?_⟩
    change f n >>= k n = _
    rw [hN n (by omega)]
    exact hN' n (by omega)

theorem settles_mapM {f : Nat → α → Except ε β} : ∀ {l : List α}, (∀ a ∈ l, Settles out fun n => f n a) →
    Settles out fun n => l.mapM (f n)
  | [], _ => settles_ok []
  | a :: l, h => by
    obtain ⟨ha, hl⟩ := List.forall_mem_cons.mp h
    simp only [List.mapM_cons]
    exact ha.bind fun _ b _ => (settles_mapM hl).bind fun _ bs _ => settles_ok _

def OnlyRaises (out : ε) (r : Except ε α) : Prop := ∀ err, r = .error err → err = out

theorem onlyRaises_ok (a : α) : OnlyRaises out (.ok a) := fun _ h => by cases h

theorem OnlyRaises.bind {k : α → Except ε β} (h : OnlyRaises out r)
    (hk : ∀ a, r = .ok a → OnlyRaises out (k a)) : OnlyRaises out (r >>= k) := by
  cases r with
  | error e =>
    intro err herr
    exact (Except.error.inj herr) ▸ h e rfl
  | ok a => exact hk a rfl

theorem onlyRaises_mapM {f : α → Except ε β} :
    ∀ {l : List α}, (∀ a ∈ l, OnlyRaises out (f a)) → OnlyRaises out (l.mapM f)
  | [], _ => onlyRaises_ok []
  | a :: l, h => by
    obtain ⟨ha, hl⟩ := List.forall_mem_cons.mp h
    rw [List.mapM_cons]
    exact ha.bind fun b _ => (onlyRaises_mapM hl).bind fun bs _ => onlyRaises_ok _

def Finishes (f : Nat → Except ε α) : Prop := ∃ a N, ∀ n, N ≤ n → f n = .ok a

theorem finishes_ok (a : α) : Finishes fun _ => (.ok a : Except ε α) := ⟨a, 0, fun _ _ => rfl⟩

theorem finishes_succ (h : Finishes fun n => f (n + 1)) : Finishes f := by
  obtain ⟨a, N, hN⟩ := h
  refine ⟨a, N + 1, fun n hn => ?_⟩
  obtain ⟨m, rfl⟩ : ∃ m, n = m + 1 := ⟨n - 1, by omega⟩
  exact hN m (by omega)

theorem Finishes.bind (h : Finishes f)
    (hk : ∀ n a, f n = .ok a → Finishes fun n => k n a) : Finishes fun n => f n >>= k n := by
  obtain ⟨a, N, hN⟩ := h
  obtain ⟨b, N', hN'⟩ := hk N a (hN N (Nat.le_refl _))
  refine ⟨b, max N N', fun n hn => ?_⟩
  change f n >>= k n = _
  rw [hN n (by omega)]
  exact hN' n (by omega)

theorem Settles.finishes (h : Settles out f) (hraises : ∀ n, OnlyRaises out (f n)) : Finishes f := by
  obtain ⟨r, hr, N, hN⟩ := h
  cases r with
  | error e => exact absurd (congrArg Except.error (hraises N e (hN N (Nat.le_refl _)))) hr
  | ok a => exact ⟨a, N, hN⟩

/-- At each depth the result is `r` or the lack of depth, and from some depth on it is `r`. -/
def Computes (out : ε) (f : Nat → Except ε α) (r : Except ε α) : Prop :=
  (∀ n, f n = .error out ∨ f n = r) ∧ ∃ N, ∀ n, N ≤ n → f n = r

theorem computes_const (r : Except ε α) : Computes out (fun _ => r) r := ⟨fun _ => .inr rfl, 0, fun _ _ => rfl⟩

theorem computes_succ (h0 : f 0 = .error out)
    (h : Computes out (fun n => f (n + 1)) r) : Computes out f r := by
  obtain ⟨hall, N, hN⟩ := h
  constructor
  · intro n
    cases n with
    | zero => exact .inl h0
    | succ n => exact hall n
  · refine ⟨N + 1, fun n hn => ?_⟩
    obtain ⟨m, rfl⟩ : ∃ m, n = m + 1 := ⟨n - 1, by omega⟩
    exact hN m (by omega)

theorem Computes.eq_of_ne {x : Except ε α} (h : Computes out f r) {n : Nat} (hx : f n = x)
    (hne : x ≠ .error out) : x = r := by
  rcases h.1 n with hn | hn
  · exact absurd (hx.symm.trans hn) hne
  · exact hx.symm.trans hn

variable {F : Nat → Except ε α → Except ε β}

theorem Computes.elim {r' : Except ε β}
    (h : Computes out f r) (hout : ∀ n, F n (.error out) = .error out) (hr : Computes out (fun n => F n r) r') :
    Computes out (fun n => F n (f n)) r' := by
  obtain ⟨hall, N, hN⟩ := h
  obtain ⟨hall', N', hN'⟩ := hr
  constructor
  · intro n
    change F n (f n) = _ ∨ F n (f n) = _
    rcases hall n with hn | hn
    · rw [hn]
      exact .inl (hout n)
    · rw [hn]
      exact hall' n
  · refine ⟨max N N', fun n hn => ?_⟩
    change F n (f n) = _
    rw [hN n (by omega)]
    exact hN' n (by omega)

theorem Computes.bind {g : α → Except ε β}
    (h : Computes out f r) (hk : ∀ a, r = .ok a → Computes out (fun n => k n a) (g a)) :
    Computes out (fun n => f n >>= k n) (r >>= g) := by
  refine Computes.elim (F := fun n x => x >>= k n) h (fun _ => rfl) ?_
  cases r with
  | error e => exact computes_const _
  | ok a => exact hk a rfl

/-- The computation fails as a shorter one does, and otherwise its result is in relation with the other one. -/
def Yields (out : ε) (Q : γ → β → Prop) (f : Nat → Except ε β) : Except ε γ → Prop
  | .ok a => ∃ b, Q a b ∧ Computes out f (.ok b)
  | .error e => Computes out f (.error e)

variable {x : Except ε γ} {Q : γ → β → Prop}

theorem Computes.yields {f : Nat → Except ε β} {v : γ → β}
    (h : Computes out f (x >>= fun a => .ok (v a))) (hQ : ∀ a, Q a (v a)) : Yields out Q f x := by
  cases x with
  | error e => exact h
  | ok a => exact ⟨v a, hQ a, h⟩

theorem yields_const (x : Except ε β) : Yields out Eq (fun _ => x) x := by
  cases x with
  | error e => exact computes_const _
  | ok a => exact ⟨a, rfl, computes_const _⟩

theorem yields_ok {a : γ} {b : β} (h : Q a b) : Yields out Q (fun _ => .ok b) (.ok a) :=
  ⟨b, h, computes_const _⟩

theorem yields_succ {f : Nat → Except ε β} (h0 : f 0 = .error out)
    (h : Yields out Q (fun n => f (n + 1)) x) : Yields out Q f x := by
  cases x with
  | error e => exact computes_succ h0 h
  | ok a =>
    obtain ⟨b, hQ, hf⟩ := h
    exact ⟨b, hQ, computes_succ h0 hf⟩

theorem Yields.bind {f : Nat → Except ε β} {k : Nat → β → Except ε β'}
    {y : γ → Except ε γ'} {Q' : γ' → β' → Prop} (h : Yields out Q f x)
    (hk : ∀ a b, x = .ok a → Q a b → Yields out Q' (fun n => k n b) (y a)) :
    Yields out Q' (fun n => f n >>= k n) (x >>= y) := by
  cases x with
  | error e => exact Computes.bind (g := fun _ => .error e) h fun _ ha => by cases ha
  | ok a =>
    obtain ⟨b, hQ, hf⟩ := h
    have hkb := hk a b rfl hQ
    change Yields out Q' _ (y a)
    cases hy : y a with
    | error e =>
      rw [hy] at hkb
      exact hf.bind (g := fun _ => .error e) fun _ hb => by cases hb; exact hkb
    | ok c =>
      rw [hy] at hkb
      obtain ⟨d, hQ', hd⟩ := hkb
      exact ⟨d, hQ', hf.bind (g := fun _ => .ok d) fun _ hb => by cases hb; exact hd⟩

theorem Yields.elim (h : Computes out f r) (hout : ∀ n, F n (.error out) = .error out)
    (hr : Yields out Q (fun n => F n r) x) : Yields out Q (fun n => F n (f n)) x := by
  cases x with
  | error e => exact h.elim hout hr
  | ok a =>
    obtain ⟨b, hQ, hb⟩ := hr
    exact ⟨b, hQ, h.elim hout hb⟩

theorem Yields.post {f : Nat → Except ε β} {v : β → β'} {Q' : γ → β' → Prop}
    (h : Yields out Q f x) (hQ : ∀ a b, Q a b → Q' a (v b)) :
    Yields out Q' (fun n => f n >>= fun b => .ok (v b)) x := by
  cases x with
  | error e => exact Computes.bind (g := fun b => .ok (v b)) h fun _ _ => computes_const _
  | ok a =>
    obtain ⟨b, hab, hf⟩ := h
    exact ⟨v b, hQ a b hab, hf.bind (g := fun b => .ok (v b)) fun _ _ => computes_const _⟩

theorem Yields.map {f : Nat → Except ε β} {v : γ → γ'} {Q' : γ' → β → Prop}
    (h : Yields out Q f x) (hQ : ∀ a b, Q a b → Q' (v a) b) : Yields out Q' f (x >>= fun a => .ok (v a)) := by
  cases x with
  | error e => exact h
  | ok a =>
    obtain ⟨b, hab, hf⟩ := h
    exact ⟨b, hQ a b hab, hf⟩

end

end Aeneas.Fuel
