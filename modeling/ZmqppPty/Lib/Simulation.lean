import ZmqppPty.Lib.Machine

/-!
# Simulation of machines

* `Simulates`       a step of one machine is one of the other that emits the same events, seen
                    through `f`, or nothing happens there;
* `Simulates.run`   then a run of the one is a run of the other;
* `eachAfter_map`   what events find before them, of events seen through `f`.
-/

namespace Lib
namespace Machine

variable {σ ℓ ε σ' ℓ' ε' : Type*}

/-- `ok` and `ok'` restrict the steps of the two machines -/
def Simulates (M : Machine σ ℓ ε) (N : Machine σ' ℓ' ε') (ok : σ → ℓ → Prop)
    (ok' : σ' → ℓ' → Prop) (f : ε' → ε) (R : σ → σ' → Prop) : Prop :=
  ∀ s u l t e, R s u → ok s l → M.step s l = some (t, e) →
    (e = [] ∧ R t u) ∨
      ∃ l' v e', ok' u l' ∧ N.step u l' = some (v, e') ∧ e = e'.map f ∧ R t v

/-- **Runs are simulated step by step**, the steps that the other machine does not see left out. -/
theorem Simulates.run {M : Machine σ ℓ ε} {N : Machine σ' ℓ' ε'} {ok : σ → ℓ → Prop}
    {ok' : σ' → ℓ' → Prop} {f : ε' → ε} {R : σ → σ' → Prop} (h : Simulates M N ok ok' f R)
    {s t : σ} {u : σ'} {ls : List ℓ} {es : List ε} (h0 : R s u) (hok : M.Along ok s ls)
    (hr : M.exec s ls = some (t, es)) :
    ∃ ls' v es', N.Along ok' u ls' ∧ N.exec u ls' = some (v, es') ∧ es = es'.map f ∧ R t v := by
  induction ls generalizing s u es with
  | nil =>
    rw [exec_nil, Option.some.injEq, Prod.mk.injEq] at hr
    obtain ⟨rfl, rfl⟩ := hr
    exact ⟨[], u, [], trivial, rfl, rfl, h0⟩
  | cons l ls ih =>
    obtain ⟨s', e, es', hs, hr', rfl⟩ := exec_cons hr
    have hrest := hok.2 s' e hs
    rcases h s u l s' e h0 hok.1 hs with ⟨rfl, hstay⟩ | ⟨l', u', e', hok', hstep, rfl, hnext⟩
    · exact ih hstay hrest hr'
    · obtain ⟨ls', v, es'', halong, hexec, rfl, hend⟩ := ih hnext hrest hr'
      exact ⟨l' :: ls', v, e' ++ es'', halong.cons hstep hok', exec_cons_of hstep hexec,
        List.map_append.symm, hend⟩

end Machine

theorem eachAfter_map {ε ε' : Type*} {f : ε' → ε} {Q : List ε → ε → Prop} {tr : List ε'}
    (h : EachAfter (fun pre e => Q (pre.map f) (f e)) tr) : EachAfter Q (tr.map f) := by
  intro pre e post heq
  obtain ⟨pre', rest, rfl, rfl, hrest⟩ := List.map_eq_append_iff.mp heq
  obtain ⟨e', post', rfl, rfl, rfl⟩ := List.map_eq_cons_iff.mp hrest
  exact h pre' e' post' rfl

end Lib
