import Mathlib.Tactic

/-!
# Machines that emit events

A `Machine σ ℓ ε` takes a step from a state on a label; the step emits a list of events, and a
label that is not enabled in a state has no step there.

* `exec`         a whole run: the state reached and everything emitted, in order;
* `Along ok`     every step of a run meets `ok`, a condition on the state before the step and on
                 its label;
* `exec_inv`     the induction over runs: what every step keeps holds of the state reached
                 together with everything emitted so far (`exec_always`: whatever the steps meet);
* `exec_state`   the same for a property of the state alone;
* `along_of_unmarked`   a run has only good steps if a bad one would leave its mark;
* `exec_since`   what one step brings about and all later ones keep;
* `exec_at`, `exec_mem`   the step on one of the labels, and the step that emits an event;
* `exec_labels`  induction over runs for a property of the labels so far;
* `LeadsTo p`    a step, if it is enabled, leads to a state in `p`;
* `Throughout P` every state of a run is in `P`, with everything emitted before it;
* `throughout_iff_along`   it is so iff no step breaks `P` (`throughout_iff_along_enabled`: also of
                  lists of labels that the machine does not follow to their end);
* `exec_map`     a function that takes the steps of one machine to those of another does so with
                 whole runs; `exec_lift`: the same in one direction;
* `EachAfter Q`  every event of a list is in `Q` to the events before it.
-/

namespace Lib

/-- a deterministic transition system: the labels are the choices of the environment -/
structure Machine (σ ℓ ε : Type*) where
  step : σ → ℓ → Option (σ × List ε)

namespace Machine
variable {σ ℓ ε : Type*} (M : Machine σ ℓ ε)

/-- the state reached by a list of labels and everything emitted on the way; `none` if one of the
labels is not enabled -/
def exec : σ → List ℓ → Option (σ × List ε)
  | s, [] => some (s, [])
  | s, l :: ls =>
    match M.step s l with
    | none => none
    | some (t, e) =>
      match exec t ls with
      | none => none
      | some (u, es) => some (u, e ++ es)

/-- every step of the run meets `ok` -/
def Along (ok : σ → ℓ → Prop) : σ → List ℓ → Prop
  | _, [] => True
  | s, l :: ls => ok s l ∧ ∀ t e, M.step s l = some (t, e) → Along ok t ls

/-- what a step leads to, if it is enabled -/
instance decidableAfter (p : σ → Prop) [DecidablePred p] (s : σ) (l : ℓ) :
    Decidable (∀ t e, M.step s l = some (t, e) → p t) :=
  decidable_of_iff (∀ r ∈ M.step s l, p r.1)
    ⟨fun h t e hs => h (t, e) hs, fun h r hr => h r.1 r.2 hr⟩

/-- the step leads to a state in `p`, if it is enabled -/
def LeadsTo (p : σ → Prop) (s : σ) (l : ℓ) : Prop := ∀ t e, M.step s l = some (t, e) → p t

instance (p : σ → Prop) [DecidablePred p] (s : σ) (l : ℓ) : Decidable (M.LeadsTo p s l) :=
  inferInstanceAs (Decidable (∀ t e, M.step s l = some (t, e) → p t))

instance decidableAlong (ok : σ → ℓ → Prop) [∀ s l, Decidable (ok s l)] :
    ∀ s ls, Decidable (M.Along ok s ls)
  | _, [] => isTrue trivial
  | s, l :: ls =>
    match h : M.step s l with
    | none =>
      decidable_of_iff (ok s l) ⟨fun ho => ⟨ho, fun _ _ ht => nomatch h.symm.trans ht⟩, And.left⟩
    | some (t, e) =>
      haveI := decidableAlong ok t ls
      decidable_of_iff (ok s l ∧ M.Along ok t ls)
        ⟨fun ho => ⟨ho.1, fun _ _ ht =>
            (Prod.mk.inj (Option.some.inj (h.symm.trans ht))).1 ▸ ho.2⟩,
          fun ho => ⟨ho.1, ho.2 t e h⟩⟩

variable {M}

theorem exec_nil (s : σ) : M.exec s [] = some (s, []) := rfl

theorem exec_cons {s : σ} {l : ℓ} {ls : List ℓ} {u : σ} {es : List ε}
    (h : M.exec s (l :: ls) = some (u, es)) :
    ∃ t e es', M.step s l = some (t, e) ∧ M.exec t ls = some (u, es') ∧ es = e ++ es' := by
  unfold exec at h
  cases hs : M.step s l with
  | none => rw [hs] at h; cases h
  | some te =>
    obtain ⟨t, e⟩ := te
    rw [hs] at h
    cases hr : M.exec t ls with
    | none => simp only [hr] at h; cases h
    | some ue =>
      obtain ⟨u', es'⟩ := ue
      simp only [hr, Option.some.injEq, Prod.mk.injEq] at h
      exact ⟨t, e, es', rfl, by rw [hr, h.1], h.2.symm⟩

theorem exec_cons_of {s t u : σ} {l : ℓ} {ls : List ℓ} {e es : List ε}
    (hs : M.step s l = some (t, e)) (hr : M.exec t ls = some (u, es)) :
    M.exec s (l :: ls) = some (u, e ++ es) := by
  unfold exec
  rw [hs]
  dsimp only
  rw [hr]

theorem Along.cons {ok : σ → ℓ → Prop} {s t : σ} {l : ℓ} {ls : List ℓ} {e : List ε}
    (hs : M.step s l = some (t, e)) (hok : ok s l) (h : M.Along ok t ls) :
    M.Along ok s (l :: ls) := by
  refine ⟨hok, fun t' e' hs' => ?_⟩
  rw [hs, Option.some.injEq, Prod.mk.injEq] at hs'
  exact hs'.1 ▸ h

theorem along_cons_iff {ok : σ → ℓ → Prop} {s t : σ} {l : ℓ} {ls : List ℓ} {e : List ε}
    (hs : M.step s l = some (t, e)) : M.Along ok s (l :: ls) ↔ ok s l ∧ M.Along ok t ls :=
  ⟨fun h => ⟨h.1, h.2 t e hs⟩, fun h => h.2.cons hs h.1⟩

theorem Along.and {ok ok' : σ → ℓ → Prop} {s : σ} {ls : List ℓ} (h : M.Along ok s ls)
    (h' : M.Along ok' s ls) : M.Along (fun s l => ok s l ∧ ok' s l) s ls := by
  induction ls generalizing s with
  | nil => trivial
  | cons l ls ih => exact ⟨⟨h.1, h'.1⟩, fun t e hs => ih (h.2 t e hs) (h'.2 t e hs)⟩

theorem Along.mono {ok ok' : σ → ℓ → Prop} {s : σ} {ls : List ℓ} (h : M.Along ok s ls)
    (himp : ∀ s l, ok s l → ok' s l) : M.Along ok' s ls := by
  induction ls generalizing s with
  | nil => trivial
  | cons l ls ih => exact ⟨himp s l h.1, fun t e hs => ih (h.2 t e hs)⟩

theorem along_append {ok : σ → ℓ → Prop} {s : σ} {a b : List ℓ} {t : σ} {e : List ε}
    (h : M.Along ok s (a ++ b)) (hr : M.exec s a = some (t, e)) :
    M.Along ok s a ∧ M.Along ok t b := by
  induction a generalizing s e with
  | nil =>
    rw [exec_nil, Option.some.injEq, Prod.mk.injEq] at hr
    exact ⟨trivial, hr.1 ▸ h⟩
  | cons l a ih =>
    obtain ⟨v, e1, e2, hs, hr', _⟩ := exec_cons hr
    obtain ⟨hok, hrest⟩ := h
    obtain ⟨h1, h2⟩ := ih (hrest v e1 hs) hr'
    exact ⟨h1.cons hs hok, h2⟩

theorem Along.concat {ok : σ → ℓ → Prop} {s t : σ} {ls : List ℓ} {l : ℓ} {e : List ε}
    (h : M.Along ok s ls) (hr : M.exec s ls = some (t, e)) (hok : ok t l) :
    M.Along ok s (ls ++ [l]) := by
  induction ls generalizing s e with
  | nil =>
    rw [exec_nil, Option.some.injEq, Prod.mk.injEq] at hr
    exact ⟨hr.1 ▸ hok, fun _ _ _ => trivial⟩
  | cons l' ls ih =>
    obtain ⟨v, e1, e2, hs, hr', -⟩ := exec_cons hr
    exact (ih (h.2 v e1 hs) hr').cons hs h.1

/-- the steps of a run are enabled -/
theorem along_of_exec {s : σ} {ls : List ℓ} {r : σ × List ε} (h : M.exec s ls = some r) :
    M.Along (fun s l => (M.step s l).isSome = true) s ls := by
  induction ls generalizing s r with
  | nil => trivial
  | cons l ls ih =>
    obtain ⟨t, e, es', hs, hr', -⟩ := exec_cons h
    exact (ih hr').cons hs (hs ▸ rfl)

/-- **Induction over runs.**  `P` is kept by every step that meets `ok`. -/
theorem exec_inv {ok : σ → ℓ → Prop} (P : σ → List ε → Prop)
    (hstep : ∀ s tr l t e, P s tr → ok s l → M.step s l = some (t, e) → P t (tr ++ e))
    {s t : σ} (tr : List ε) {es : List ε} {ls : List ℓ} (h0 : P s tr) (hok : M.Along ok s ls)
    (hr : M.exec s ls = some (t, es)) : P t (tr ++ es) := by
  induction ls generalizing s tr es with
  | nil =>
    rw [exec_nil, Option.some.injEq, Prod.mk.injEq] at hr
    rw [← hr.1, ← hr.2, List.append_nil]
    exact h0
  | cons l ls ih =>
    obtain ⟨v, e, es', hs, hr', rfl⟩ := exec_cons hr
    rw [← List.append_assoc]
    exact ih (tr ++ e) (hstep s tr l v e h0 hok.1 hs) (hok.2 v e hs) hr'

/-- induction over runs for a property of the state alone -/
theorem exec_state {ok : σ → ℓ → Prop} (P : σ → Prop)
    (hstep : ∀ s l t e, P s → ok s l → M.step s l = some (t, e) → P t)
    {s t : σ} {es : List ε} {ls : List ℓ} (h0 : P s) (hok : M.Along ok s ls)
    (hr : M.exec s ls = some (t, es)) : P t :=
  exec_inv (fun s _ => P s) (fun s _ l t e hp ho hs => hstep s l t e hp ho hs) [] h0 hok hr

theorem along_of_forall {ok : σ → ℓ → Prop} (h : ∀ s l, ok s l) (s : σ) (ls : List ℓ) :
    M.Along ok s ls := by
  induction ls generalizing s with
  | nil => trivial
  | cons l ls ih => exact ⟨h s l, fun t _ _ => ih t⟩

/-- a condition on the labels alone -/
theorem along_labels {p : ℓ → Prop} {s u : σ} {es : List ε} {ls : List ℓ}
    (hr : M.exec s ls = some (u, es)) : M.Along (fun _ l => p l) s ls ↔ ∀ l ∈ ls, p l := by
  induction ls generalizing s es with
  | nil => exact ⟨fun _ l hl => (nomatch hl), fun _ => trivial⟩
  | cons l ls ih =>
    obtain ⟨t, e, es', hs, hr', -⟩ := exec_cons hr
    rw [List.forall_mem_cons, ← ih hr']
    constructor
    · intro h
      exact ⟨h.1, h.2 t e hs⟩
    · intro h
      exact h.2.cons hs h.1

/-- induction over runs for a property that every step keeps -/
theorem exec_always (P : σ → List ε → Prop)
    (hstep : ∀ s tr l t e, P s tr → M.step s l = some (t, e) → P t (tr ++ e))
    {s t : σ} (tr : List ε) {es : List ε} {ls : List ℓ} (h0 : P s tr)
    (hr : M.exec s ls = some (t, es)) : P t (tr ++ es) :=
  exec_inv P (fun s tr l t e hp _ hs => hstep s tr l t e hp hs) tr h0
    (along_of_forall (fun (_ : σ) (_ : ℓ) => trivial) s ls) hr

/-- **A bad step leaves its mark.**  In a run whose steps all meet `base`, a step that does not meet
`ok` brings `Q` about and every step keeps it; a run in whose end `Q` does not hold has no such
step. -/
theorem along_of_unmarked {base ok : σ → ℓ → Prop} (P Q : σ → List ε → Prop)
    (hP : ∀ s tr l t e, P s tr → base s l → M.step s l = some (t, e) → P t (tr ++ e))
    (hbad : ∀ s tr l t e, P s tr → base s l → ¬ ok s l → M.step s l = some (t, e) →
      Q t (tr ++ e))
    (hQ : ∀ s tr l t e, P s tr → Q s tr → M.step s l = some (t, e) → Q t (tr ++ e))
    {s u : σ} (tr : List ε) {es : List ε} {ls : List ℓ} (h0 : P s tr) (hbase : M.Along base s ls)
    (hr : M.exec s ls = some (u, es)) (hend : ¬ Q u (tr ++ es)) : M.Along ok s ls := by
  induction ls generalizing s tr es with
  | nil => trivial
  | cons l ls ih =>
    obtain ⟨t, e, es', hs, hr', rfl⟩ := exec_cons hr
    rw [← List.append_assoc] at hend
    have ht := hP s tr l t e h0 hbase.1 hs
    have hrest := hbase.2 t e hs
    refine ⟨?_, ?_⟩
    · by_contra hok
      have hmark := exec_inv (fun s tr => P s tr ∧ Q s tr)
        (fun s tr l t e h hb hs => ⟨hP s tr l t e h.1 hb hs, hQ s tr l t e h.1 h.2 hs⟩) (tr ++ e)
        ⟨ht, hbad s tr l t e h0 hbase.1 hok hs⟩ hrest hr'
      exact hend hmark.2
    · intro t' e' hs'
      obtain ⟨rfl, rfl⟩ := Prod.mk.inj (Option.some.inj (hs.symm.trans hs'))
      exact ih (tr ++ e) ht hrest hr' hend

/-- **What holds from one step on.**  `I` is an invariant; the step on `l` brings `P` about, every
step keeps it, and all that is emitted in the meantime is in `Q`. -/
theorem exec_since {ok : σ → ℓ → Prop} (I P : σ → Prop) (Q : ε → Prop)
    (hI : ∀ s l t e, I s → ok s l → M.step s l = some (t, e) → I t)
    (hP : ∀ s l t e, I s → P s → ok s l → M.step s l = some (t, e) → P t ∧ ∀ ev ∈ e, Q ev)
    {s t u : σ} {l : ℓ} {ls ls' : List ℓ} {tr es : List ε} (h0 : I s)
    (hl : ∀ v e, I t → M.step t l = some (v, e) → P v ∧ ∀ ev ∈ e, Q ev)
    (hok : M.Along ok s (ls ++ l :: ls')) (hr : M.exec s ls = some (t, tr))
    (hr' : M.exec t (l :: ls') = some (u, es)) : ∀ ev ∈ es, Q ev := by
  obtain ⟨hok1, hok2⟩ := along_append hok hr
  have ht : I t := exec_state I hI h0 hok1 hr
  obtain ⟨v, e, e', hs, hr2, rfl⟩ := exec_cons hr'
  obtain ⟨hv, he⟩ := hl v e ht hs
  have hend := exec_inv (fun s tr => (I s ∧ P s) ∧ ∀ ev ∈ tr, Q ev)
    (fun s tr l t e hp ho hs => by
      obtain ⟨⟨hi, hp⟩, htr⟩ := hp
      obtain ⟨hp', he⟩ := hP s l t e hi hp ho hs
      refine ⟨⟨hI s l t e hi ho hs, hp'⟩, ?_⟩
      intro ev hev
      exact (List.mem_append.mp hev).elim (htr ev) (he ev))
    e ⟨⟨hI t l v e ht hok2.1 hs, hv⟩, he⟩ (hok2.2 v e hs) hr2
  exact hend.2

theorem exec_append {s t u : σ} {a b : List ℓ} {e e' : List ε} (ha : M.exec s a = some (t, e))
    (hb : M.exec t b = some (u, e')) : M.exec s (a ++ b) = some (u, e ++ e') := by
  induction a generalizing s e with
  | nil =>
    rw [exec_nil, Option.some.injEq, Prod.mk.injEq] at ha
    rw [← ha.2, ha.1]
    exact hb
  | cons l a ih =>
    obtain ⟨v, e1, e2, hs, hr, rfl⟩ := exec_cons ha
    rw [List.append_assoc]
    exact exec_cons_of hs (ih hr)

theorem exec_split {s u : σ} {a b : List ℓ} {es : List ε} (h : M.exec s (a ++ b) = some (u, es)) :
    ∃ t e e', M.exec s a = some (t, e) ∧ M.exec t b = some (u, e') ∧ es = e ++ e' := by
  induction a generalizing s es with
  | nil => exact ⟨s, [], es, rfl, h, rfl⟩
  | cons l a ih =>
    obtain ⟨v, e, e', hs, hr, rfl⟩ := exec_cons h
    obtain ⟨t, e1, e2, ha, hb, rfl⟩ := ih hr
    exact ⟨t, e ++ e1, e2, exec_cons_of hs ha, hb, (List.append_assoc _ _ _).symm⟩

/-- the step of a run on one of its labels -/
theorem exec_at {s t : σ} {es : List ε} {pre post : List ℓ} {l : ℓ}
    (hr : M.exec s (pre ++ l :: post) = some (t, es)) :
    ∃ u tr v e es', M.exec s pre = some (u, tr) ∧ M.step u l = some (v, e) ∧
      M.exec v post = some (t, es') ∧ es = tr ++ (e ++ es') := by
  obtain ⟨u, tr, e1, hpre, hrest, rfl⟩ := exec_split hr
  obtain ⟨v, e, es', hs, hpost, rfl⟩ := exec_cons hrest
  exact ⟨u, tr, v, e, es', hpre, hs, hpost, rfl⟩

/-- an event of a run is emitted by one of its steps -/
theorem exec_mem {s t : σ} {es : List ε} {ls : List ℓ} (hr : M.exec s ls = some (t, es)) {ev : ε}
    (h : ev ∈ es) : ∃ pre l post u tr v e, ls = pre ++ l :: post ∧ M.exec s pre = some (u, tr) ∧
      M.step u l = some (v, e) ∧ ev ∈ e := by
  induction ls generalizing s es with
  | nil =>
    rw [exec_nil, Option.some.injEq, Prod.mk.injEq] at hr
    rw [← hr.2] at h
    cases h
  | cons l ls ih =>
    obtain ⟨u, e, es', hs, hr', rfl⟩ := exec_cons hr
    rcases List.mem_append.mp h with h | h
    · exact ⟨[], l, ls, s, [], u, e, rfl, rfl, hs, h⟩
    · obtain ⟨pre, l', post, v, tr, w, e', rfl, hpre, hs', hev⟩ := ih hr' h
      exact ⟨l :: pre, l', post, v, e ++ tr, w, e', rfl, exec_cons_of hs hpre, hs', hev⟩

/-- induction over runs for a property of the labels so far and of the state they lead to -/
theorem exec_labels {ok : σ → ℓ → Prop} {s t : σ} (P : List ℓ → σ → Prop)
    (hstep : ∀ ls u l v tr e, M.exec s ls = some (u, tr) → P ls u → ok u l →
      M.step u l = some (v, e) → P (ls ++ [l]) v)
    {es : List ε} {ls : List ℓ} (h0 : P [] s) (hok : M.Along ok s ls)
    (hr : M.exec s ls = some (t, es)) : P ls t := by
  induction ls using List.reverseRecOn generalizing t es with
  | nil =>
    rw [exec_nil, Option.some.injEq, Prod.mk.injEq] at hr
    exact hr.1 ▸ h0
  | append_singleton ls l ih =>
    obtain ⟨u, tr, e, ha, hl, -⟩ := exec_split hr
    obtain ⟨hok1, hok2⟩ := along_append hok ha
    obtain ⟨v, e1, e2, hs, hv, -⟩ := exec_cons hl
    rw [exec_nil, Option.some.injEq, Prod.mk.injEq] at hv
    rw [← hv.1]
    exact hstep ls u l v tr e1 ha (ih hok1 ha) hok2.1 hs

/-! ## every state of a run -/

/-- `P` holds of every state that the run comes through, the first and the last included,
together with everything emitted before it -/
def Throughout (M : Machine σ ℓ ε) (P : σ → List ε → Prop) (s : σ) (ls : List ℓ) : Prop :=
  ∀ pre post t es, ls = pre ++ post → M.exec s pre = some (t, es) → P t es

theorem throughout_nil {P : σ → List ε → Prop} {s : σ} : M.Throughout P s [] ↔ P s [] := by
  constructor
  · intro h
    exact h [] [] s [] rfl rfl
  · intro h pre post t es heq hr
    obtain ⟨rfl, -⟩ := List.append_eq_nil_iff.mp heq.symm
    rw [exec_nil, Option.some.injEq, Prod.mk.injEq] at hr
    rw [← hr.1, ← hr.2]
    exact h

theorem throughout_cons {P : σ → List ε → Prop} {s t : σ} {l : ℓ} {ls : List ℓ} {e : List ε}
    (hs : M.step s l = some (t, e)) :
    M.Throughout P s (l :: ls) ↔ P s [] ∧ M.Throughout (fun u es => P u (e ++ es)) t ls := by
  constructor
  · intro h
    refine ⟨h [] (l :: ls) s [] rfl rfl, ?_⟩
    intro pre post u es heq hr
    exact h (l :: pre) post u (e ++ es) (by rw [heq]; rfl) (exec_cons_of hs hr)
  · intro h pre post u es heq hr
    cases pre with
    | nil =>
      rw [exec_nil, Option.some.injEq, Prod.mk.injEq] at hr
      rw [← hr.1, ← hr.2]
      exact h.1
    | cons l' pre =>
      obtain ⟨rfl, hls⟩ := List.cons.inj heq
      obtain ⟨v, e1, e2, hs', hr', rfl⟩ := exec_cons hr
      obtain ⟨rfl, rfl⟩ := Prod.mk.inj (Option.some.inj (hs.symm.trans hs'))
      exact h.2 pre post u e2 hls hr'

/-- **What no step breaks.**  `I` is an invariant; a step from a state in `P` leads to one in `P`
iff it meets `ok`.  Each step that is asked for is enabled, up to the first one that breaks `P`. -/
theorem throughout_iff_along_enabled {base ok : σ → ℓ → Prop} (I P : σ → List ε → Prop)
    (hstep : ∀ s tr l, I s tr → P s tr → base s l → ∃ t e, M.step s l = some (t, e) ∧
      (P t (tr ++ e) ↔ ok s l) ∧ (ok s l → I t (tr ++ e)))
    {s : σ} (tr : List ε) {ls : List ℓ} (h0 : I s tr) (hp : P s tr) (hbase : M.Along base s ls) :
    M.Throughout (fun t es => P t (tr ++ es)) s ls ↔ M.Along ok s ls := by
  induction ls generalizing s tr with
  | nil =>
    rw [throughout_nil, List.append_nil]
    exact ⟨fun _ => trivial, fun _ => hp⟩
  | cons l ls ih =>
    obtain ⟨t, e, hs, hnext, hkeep⟩ := hstep s tr l h0 hp hbase.1
    rw [throughout_cons hs]
    simp only [← List.append_assoc]
    constructor
    · intro h
      have htp : P t (tr ++ e) := by
        have h1 := h.2 [] ls t [] rfl rfl
        dsimp only at h1
        rwa [List.append_nil] at h1
      have hok := hnext.mp htp
      exact ((ih (tr ++ e) (hkeep hok) htp (hbase.2 t e hs)).mp h.2).cons hs hok
    · intro h
      refine ⟨(List.append_nil tr).symm ▸ hp, ?_⟩
      exact (ih (tr ++ e) (hkeep h.1) (hnext.mpr h.1) (hbase.2 t e hs)).mpr (h.2 t e hs)

/-- the same for a run that the machine follows to its end -/
theorem throughout_iff_along {base ok : σ → ℓ → Prop} (I P : σ → List ε → Prop)
    (hI : ∀ s tr l t e, I s tr → base s l → M.step s l = some (t, e) → I t (tr ++ e))
    (hP : ∀ s tr l t e, I s tr → P s tr → base s l → M.step s l = some (t, e) →
      (P t (tr ++ e) ↔ ok s l))
    {s u : σ} (tr : List ε) {es : List ε} {ls : List ℓ} (h0 : I s tr) (hp : P s tr)
    (hbase : M.Along base s ls) (hr : M.exec s ls = some (u, es)) :
    M.Throughout (fun t es => P t (tr ++ es)) s ls ↔ M.Along ok s ls := by
  have henabled := hbase.and (along_of_exec hr)
  refine throughout_iff_along_enabled I P ?_ tr h0 hp henabled
  rintro s tr l hs hp ⟨hb, hsome⟩
  obtain ⟨⟨t, e⟩, hstep⟩ := Option.isSome_iff_exists.mp hsome
  exact ⟨t, e, hstep, hP s tr l t e hs hp hb hstep, fun _ => hI s tr l t e hs hb hstep⟩

/-- a condition on the labels that all of them meet -/
theorem along_of_mem {p : ℓ → Prop} (s : σ) {ls : List ℓ} (h : ∀ l ∈ ls, p l) :
    M.Along (fun _ l => p l) s ls := by
  induction ls generalizing s with
  | nil => trivial
  | cons l ls ih =>
    refine ⟨h l List.mem_cons_self, ?_⟩
    intro t _ _
    exact ih t fun l' hl' => h l' (List.mem_cons_of_mem l hl')

/-! ## two machines with the same labels -/

section
variable {σ' : Type*} {N : Machine σ' ℓ ε}

/-- the states of one machine seen as states of the other: if every step can be seen so, all runs
can -/
theorem exec_map (f : σ → σ')
    (hstep : ∀ s l, (M.step s l).map (fun r => (f r.1, r.2)) = N.step (f s) l) (s : σ)
    (ls : List ℓ) : (M.exec s ls).map (fun r => (f r.1, r.2)) = N.exec (f s) ls := by
  induction ls generalizing s with
  | nil => rfl
  | cons l ls ih =>
    unfold exec
    rw [← hstep s l]
    cases M.step s l with
    | none => rfl
    | some te =>
      dsimp only [Option.map_some]
      rw [← ih te.1]
      cases M.exec te.1 ls <;> rfl

/-- the other machine may have fewer runs: each of them is one of `M` -/
theorem exec_lift (f : σ' → σ)
    (hstep : ∀ s l t e, N.step s l = some (t, e) → M.step (f s) l = some (f t, e)) {s t : σ'}
    {ls : List ℓ} {es : List ε} (hr : N.exec s ls = some (t, es)) :
    M.exec (f s) ls = some (f t, es) := by
  induction ls generalizing s es with
  | nil =>
    rw [exec_nil, Option.some.injEq, Prod.mk.injEq] at hr
    rw [← hr.1, ← hr.2]
    rfl
  | cons l ls ih =>
    obtain ⟨u, e, es', hs, hr', rfl⟩ := exec_cons hr
    exact exec_cons_of (hstep s l u e hs) (ih hr')

end

end Machine

/-! ## what each event finds before it -/

/-- every event of the list stands in `Q` to the list of the events before it -/
def EachAfter {ε : Type*} (Q : List ε → ε → Prop) (tr : List ε) : Prop :=
  ∀ pre e post, tr = pre ++ e :: post → Q pre e

section
variable {ε : Type*} {Q : List ε → ε → Prop}

theorem eachAfter_nil : EachAfter Q [] := by
  intro pre e post h
  simp at h

theorem eachAfter_concat {tr : List ε} {e : ε} (h : EachAfter Q tr) (he : Q tr e) :
    EachAfter Q (tr ++ [e]) := by
  intro pre e' post heq
  rcases List.eq_nil_or_concat post with rfl | ⟨post', e'', rfl⟩
  · obtain ⟨rfl, hee⟩ := List.append_inj' heq rfl
    rw [List.cons.injEq] at hee
    rw [← hee.1]
    exact he
  · rw [List.concat_eq_append, ← List.cons_append, ← List.append_assoc] at heq
    exact h pre e' post' (List.append_inj' heq rfl).1

theorem eachAfter_of_append {a b : List ε} (h : EachAfter Q (a ++ b)) : EachAfter Q a := by
  intro pre e post heq
  apply h pre e (post ++ b)
  rw [heq, List.append_assoc]
  rfl

theorem eachAfter_append {a b : List ε} (h : EachAfter Q a) (hlen : b.length ≤ 1)
    (hb : ∀ e ∈ b, Q a e) : EachAfter Q (a ++ b) := by
  match b, hlen, hb with
  | [], _, _ =>
    rw [List.append_nil]
    exact h
  | [e], _, hb => exact eachAfter_concat h (hb e List.mem_cons_self)

end

end Lib
