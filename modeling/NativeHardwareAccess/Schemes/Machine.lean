import Mathlib

/-! Runs of a partial step function.

    A machine is a step function `σ → α → Option σ`: `none` means that the action is not possible in
    the state. A run is a list of actions, each possible where it is taken. -/

namespace Scheme.Machine

variable {σ α : Type*} (step : σ → α → Option σ)

/-- The state after a list of actions. -/
def run : σ → List α → Option σ
  | s, [] => some s
  | s, a :: as => (step s a).bind (fun s' => run s' as)

/-- Every action of the run is taken in a state that meets the condition. -/
def Along (cond : σ → α → Prop) : σ → List α → Prop
  | _, [] => True
  | s, a :: as => cond s a ∧ ∀ s', step s a = some s' → Along cond s' as

variable {step}

theorem run_cons {s s' : σ} {a : α} {as : List α} :
    run step s (a :: as) = some s' ↔ ∃ t, step s a = some t ∧ run step t as = some s' :=
  Option.bind_eq_some_iff

/-- A run goes on where its first part ended. -/
theorem run_append (as : List α) {s : σ} {as' : List α} :
    run step s (as ++ as') = (run step s as).bind (fun t => run step t as') := by
  induction as generalizing s with
  | nil => rfl
  | cons a as ih =>
    rw [List.cons_append, run, run, Option.bind_assoc]
    exact congrArg _ (funext fun _ => ih)

theorem run_concat {s : σ} {as : List α} {a : α} :
    run step s (as ++ [a]) = (run step s as).bind (fun t => step t a) := by
  rw [run_append]
  refine congrArg _ (funext fun t => ?_)
  rw [run]
  exact Option.bind_fun_some _

/-- A state that some run leads to. -/
def Reaches (step : σ → α → Option σ) (s t : σ) : Prop := ∃ as, run step s as = some t

theorem Reaches.refl (s : σ) : Reaches step s s := ⟨[], rfl⟩

theorem Reaches.trans {s t u : σ} (h : Reaches step s t) (h' : Reaches step t u) :
    Reaches step s u := by
  obtain ⟨as, has⟩ := h
  obtain ⟨bs, hbs⟩ := h'
  exact ⟨as ++ bs, by rw [run_append, has, Option.bind_some, hbs]⟩

theorem Reaches.single {s t : σ} {a : α} (h : step s a = some t) : Reaches step s t :=
  ⟨[a], run_cons.mpr ⟨t, h, rfl⟩⟩

/-- What holds at the start and is kept by every step that meets the condition holds after every run
    whose steps all meet it. -/
theorem run_invariant {cond : σ → α → Prop} {inv : σ → Prop}
    (hstep : ∀ s a s', inv s → cond s a → step s a = some s' → inv s')
    (as : List α) {s s' : σ} (hinv : inv s) (halong : Along step cond s as)
    (h : run step s as = some s') : inv s' := by
  induction as generalizing s with
  | nil =>
    obtain rfl := Option.some.inj h
    exact hinv
  | cons a as ih =>
    obtain ⟨t, ht, hrun⟩ := run_cons.mp h
    exact ih (hstep s a t hinv halong.1 ht) (halong.2 t ht) hrun

/-- What every step keeps, given the actions before it, holds at the end of a run. -/
theorem run_history (inv : List α → σ → Prop)
    (hstep : ∀ past s a t, inv past s → step s a = some t → inv (past ++ [a]) t)
    (as : List α) {s u : σ} (past : List α) (hinv : inv past s) (h : run step s as = some u) :
    inv (past ++ as) u := by
  induction as generalizing s past with
  | nil =>
    obtain rfl := Option.some.inj h
    rwa [List.append_nil]
  | cons a as ih =>
    obtain ⟨t, ht, hrest⟩ := run_cons.mp h
    rw [List.append_cons]
    exact ih (past ++ [a]) (hstep past s a t hinv ht) hrest

/-- What every step takes off bounds the length of a run. -/
theorem run_length_le {inv : σ → Prop} (toGo : σ → ℕ)
    (hstep : ∀ s a s', inv s → step s a = some s' → inv s' ∧ toGo s' < toGo s)
    (as : List α) {s s' : σ} (hinv : inv s) (h : run step s as = some s') :
    as.length + toGo s' ≤ toGo s := by
  induction as generalizing s with
  | nil =>
    obtain rfl := Option.some.inj h
    simp
  | cons a as ih =>
    obtain ⟨t, ht, hrun⟩ := run_cons.mp h
    obtain ⟨hinv', hlt⟩ := hstep s a t hinv ht
    have hrest := ih hinv' hrun
    rw [List.length_cons]
    omega

/-- Where every step pays its cost from what is still to go and from its own gain, so does a run. -/
theorem run_budget {cond : σ → α → Prop} {inv : σ → Prop} (toGo : σ → ℕ) (cost gain : α → ℕ)
    (hstep : ∀ s a s', inv s → cond s a → step s a = some s' →
      inv s' ∧ cost a + toGo s' ≤ toGo s + gain a)
    (as : List α) {s s' : σ} (hinv : inv s) (halong : Along step cond s as)
    (h : run step s as = some s') :
    (as.map cost).sum + toGo s' ≤ toGo s + (as.map gain).sum := by
  induction as generalizing s with
  | nil =>
    obtain rfl := Option.some.inj h
    simp
  | cons a as ih =>
    obtain ⟨t, ht, hrun⟩ := run_cons.mp h
    obtain ⟨hinv', hpay⟩ := hstep s a t hinv halong.1 ht
    have hrest := ih hinv' (halong.2 t ht) hrun
    rw [List.map_cons, List.map_cons, List.sum_cons, List.sum_cons]
    omega

/-- Two states that allow the same actions and stay related allow the same runs. -/
theorem run_related {cond : σ → α → Prop} {R : σ → σ → Prop}
    (hstep : ∀ s t a s', R s t → cond s a → step s a = some s' → ∃ t', step t a = some t' ∧ R s' t')
    (as : List α) {s t s' : σ} (hR : R s t) (halong : Along step cond s as)
    (h : run step s as = some s') : ∃ t', run step t as = some t' ∧ R s' t' := by
  induction as generalizing s t with
  | nil =>
    obtain rfl := Option.some.inj h
    exact ⟨t, rfl, hR⟩
  | cons a as ih =>
    obtain ⟨u, hu, hrun⟩ := run_cons.mp h
    obtain ⟨v, hv, hR'⟩ := hstep s t a u hR halong.1 hu
    obtain ⟨t', ht', hend⟩ := ih hR' (halong.2 u hu) hrun
    exact ⟨t', run_cons.mpr ⟨v, hv, ht'⟩, hend⟩

/-- Where every step of a machine is seen by another as one of its steps or not at all, its runs are
    seen as runs. -/
theorem run_projects {σ' α' : Type*} {step' : σ' → α' → Option σ'} (f : σ → σ')
    {cond : σ → α → Prop} {cond' : σ' → α' → Prop}
    (hstep : ∀ s a s', cond s a → step s a = some s' →
      f s' = f s ∨ ∃ b, cond' (f s) b ∧ step' (f s) b = some (f s'))
    (as : List α) {s s' : σ} (halong : Along step cond s as) (h : run step s as = some s') :
    ∃ bs, Along step' cond' (f s) bs ∧ run step' (f s) bs = some (f s') := by
  induction as generalizing s with
  | nil =>
    obtain rfl := Option.some.inj h
    exact ⟨[], trivial, rfl⟩
  | cons a as ih =>
    obtain ⟨t, ht, hrun⟩ := run_cons.mp h
    obtain ⟨bs, hbs, hrest⟩ := ih (halong.2 t ht) hrun
    rcases hstep s a t halong.1 ht with hsame | ⟨b, hb, hseen⟩
    · rw [← hsame]
      exact ⟨bs, hbs, hrest⟩
    · refine ⟨b :: bs, ⟨hb, fun u hu => ?_⟩, run_cons.mpr ⟨_, hseen, hrest⟩⟩
      obtain rfl := Option.some.inj (hseen.symm.trans hu)
      exact hbs

/-- A condition that every action meets is met along every run. -/
theorem along_of_forall {cond : σ → α → Prop} (h : ∀ s a, cond s a) (s : σ) (as : List α) :
    Along step cond s as := by
  induction as generalizing s with
  | nil => trivial
  | cons a as ih => exact ⟨h s a, fun t _ => ih t⟩

/-- What the actions have by themselves can be added to the condition of a run. -/
theorem along_and {cond : σ → α → Prop} {q : α → Prop} (as : List α) {s : σ}
    (h : Along step cond s as) (hq : ∀ a ∈ as, q a) :
    Along step (fun s a => cond s a ∧ q a) s as := by
  induction as generalizing s with
  | nil => trivial
  | cons a as ih =>
    rw [List.forall_mem_cons] at hq
    exact ⟨⟨h.1, hq.1⟩, fun t ht => ih (h.2 t ht) hq.2⟩

/-- Where an invariant turns one condition into another, a run that meets the one meets the other. -/
theorem along_of_invariant {cond cond' : σ → α → Prop} {inv : σ → Prop}
    (hstep : ∀ s a s', inv s → cond s a → step s a = some s' → inv s')
    (hcond : ∀ s a, inv s → cond s a → cond' s a)
    (as : List α) {s : σ} (hinv : inv s) (halong : Along step cond s as) :
    Along step cond' s as := by
  induction as generalizing s with
  | nil => trivial
  | cons a as ih =>
    refine ⟨hcond s a hinv halong.1, fun t ht => ?_⟩
    exact ih (hstep s a t hinv halong.1 ht) (halong.2 t ht)

/-- A condition that every step on the way to a state meets is met along the runs to it. -/
theorem along_of_run {cond : σ → α → Prop} {inv : σ → Prop} {u : σ}
    (hstep : ∀ s a t, inv s → step s a = some t → inv t)
    (hcond : ∀ s a t, inv s → step s a = some t → Reaches step t u → cond s a)
    (as : List α) {s : σ} (hinv : inv s) (h : run step s as = some u) : Along step cond s as := by
  induction as generalizing s with
  | nil => trivial
  | cons a as ih =>
    obtain ⟨t, ht, hrun⟩ := run_cons.mp h
    refine ⟨hcond s a t hinv ht ⟨as, hrun⟩, fun t' ht' => ?_⟩
    obtain rfl := Option.some.inj (ht.symm.trans ht')
    exact ih (hstep s a t hinv ht) hrun

/-- Whether the conditions of a run are met can be computed. -/
instance decidableAlong (cond : σ → α → Prop) [∀ s a, Decidable (cond s a)] :
    ∀ (s : σ) (as : List α), Decidable (Along step cond s as)
  | _, [] => isTrue trivial
  | s, a :: as =>
    match h : step s a with
    | none => decidable_of_iff (cond s a) ⟨fun hc => ⟨hc, by simp [h]⟩, fun hc => hc.1⟩
    | some t =>
      let _ := decidableAlong cond t as
      decidable_of_iff (cond s a ∧ Along step cond t as)
        ⟨fun hc => ⟨hc.1, fun t' ht' => Option.some.inj (h.symm.trans ht') ▸ hc.2⟩,
          fun hc => ⟨hc.1, hc.2 t h⟩⟩

/-! ### Labelled transitions -/

variable {R : σ → α → σ → Prop}

/-- The states that a list of labels can lead to. -/
def Path (R : σ → α → σ → Prop) : σ → List α → σ → Prop
  | s, [], u => s = u
  | s, a :: as, u => ∃ t, R s a t ∧ Path R t as u

theorem path_append (as : List α) {bs : List α} {s u : σ} :
    Path R s (as ++ bs) u ↔ ∃ t, Path R s as t ∧ Path R t bs u := by
  induction as generalizing s with
  | nil => simp [Path]
  | cons a as ih =>
    constructor
    · rintro ⟨t, ht, hrest⟩
      obtain ⟨v, hv, hvu⟩ := ih.mp hrest
      exact ⟨v, ⟨t, ht, hv⟩, hvu⟩
    · rintro ⟨v, ⟨t, ht, hv⟩, hvu⟩
      exact ⟨t, ht, ih.mpr ⟨v, hv, hvu⟩⟩

theorem Path.concat {as : List α} {a : α} {s t u : σ} (h : Path R s as t) (hstep : R t a u) :
    Path R s (as ++ [a]) u :=
  (path_append as).mpr ⟨t, h, u, hstep, rfl⟩

/-- What every step keeps, given the labels before it, holds at the end of a path. -/
theorem Path.history (inv : List α → σ → Prop)
    (hstep : ∀ past s a t, inv past s → R s a t → inv (past ++ [a]) t)
    (as : List α) {s u : σ} (past : List α) (hinv : inv past s) (h : Path R s as u) :
    inv (past ++ as) u := by
  induction as generalizing s past with
  | nil =>
    obtain rfl : s = u := h
    rwa [List.append_nil]
  | cons a as ih =>
    obtain ⟨t, ht, hrest⟩ := h
    rw [List.append_cons]
    exact ih (past ++ [a]) (hstep past s a t hinv ht) hrest

/-- What every step with a label of the path keeps holds at the end of the path. -/
theorem Path.invariant (inv : σ → Prop) (as : List α) {s u : σ}
    (hstep : ∀ s, ∀ a ∈ as, ∀ t, inv s → R s a t → inv t) (hinv : inv s) (h : Path R s as u) :
    inv u := by
  induction as generalizing s with
  | nil =>
    obtain rfl : s = u := h
    exact hinv
  | cons a as ih =>
    obtain ⟨t, ht, hrest⟩ := h
    refine ih (fun s b hb t => hstep s b (List.mem_cons_of_mem a hb) t) ?_ hrest
    exact hstep s a List.mem_cons_self t hinv ht

/-! ### Splitting a history -/

/-- Where an element stands in a history that is one step longer: at its end, or before. -/
theorem concat_eq_split {β : Type*} {t pre post : List β} {e x : β} :
    t ++ [e] = pre ++ x :: post ↔
      (post = [] ∧ t = pre ∧ e = x) ∨ ∃ post', post = post' ++ [e] ∧ t = pre ++ x :: post' := by
  constructor
  · intro h
    rcases List.eq_nil_or_concat post with rfl | ⟨post', y, rfl⟩
    · obtain ⟨ht, he⟩ := List.append_inj' h rfl
      exact Or.inl ⟨rfl, ht, List.singleton_inj.mp he⟩
    · rw [List.concat_eq_append, ← List.cons_append, ← List.append_assoc] at h
      obtain ⟨ht, he⟩ := List.append_inj' h rfl
      obtain rfl := List.singleton_inj.mp he
      exact Or.inr ⟨post', List.concat_eq_append, ht⟩
  · rintro (⟨rfl, rfl, rfl⟩ | ⟨post', rfl, rfl⟩)
    · rfl
    · simp

end Scheme.Machine
