import Mathlib.Data.List.Basic

namespace Run

variable {σ ι : Type}

def run (step : σ → ι → Option σ) : σ → List ι → Option σ
  | s, [] => some s
  | s, c :: cs => (step s c).bind fun t => run step t cs

def Every (step : σ → ι → Option σ) (P : σ → ι → Option σ → Prop) : σ → List ι → Prop
  | _, [] => True
  | s, c :: cs => P s c (step s c) ∧ ∀ t, step s c = some t → Every step P t cs

variable {step : σ → ι → Option σ} {P Q : σ → ι → Option σ → Prop} {Inv : σ → Prop}

instance decidableEvery [∀ s c r, Decidable (P s c r)] :
    ∀ (s : σ) (cs : List ι), Decidable (Every step P s cs)
  | _, [] => isTrue trivial
  | s, c :: cs =>
    have : DecidablePred fun t => Every step P t cs := fun t => decidableEvery t cs
    inferInstanceAs (Decidable (_ ∧ ∀ t ∈ step s c, Every step P t cs))

theorem run_invariant {s t : σ} {cs : List ι} (hs : Inv s)
    (hstep : ∀ s c t, Inv s → step s c = some t → Inv t) (h : run step s cs = some t) : Inv t := by
  induction cs generalizing s with
  | nil =>
    cases h
    exact hs
  | cons c cs ih =>
    obtain ⟨u,hu,ht⟩ := Option.bind_eq_some_iff.mp h
    exact ih (hstep s c u hs hu) ht

theorem Every.last {s t : σ} {cs : List ι} {c : ι} (h : Every step P s (cs ++ [c]))
    (ht : run step s cs = some t) : P t c (step t c) := by
  induction cs generalizing s with
  | nil =>
    cases ht
    exact h.1
  | cons d cs ih =>
    obtain ⟨u,hu,ht⟩ := Option.bind_eq_some_iff.mp ht
    exact ih (h.2 u hu) ht

theorem run_append (s : σ) (cs ds : List ι) :
    run step s (cs ++ ds) = (run step s cs).bind fun t => run step t ds := by
  induction cs generalizing s with
  | nil => rfl
  | cons c cs ih =>
    rw [List.cons_append,run,run,Option.bind_assoc]
    exact Option.bind_congr fun t _ => ih t

theorem Every.append {s : σ} {cs ds : List ι} (h : Every step P s cs)
    (hd : ∀ t, run step s cs = some t → Every step P t ds) : Every step P s (cs ++ ds) := by
  induction cs generalizing s with
  | nil => exact hd s rfl
  | cons c cs ih =>
    refine ⟨h.1,fun t ht => ih (h.2 t ht) fun u hu => hd u ?_⟩
    rw [run,ht]
    exact hu

-- V is what every call of the run is known to meet
theorem every_iff_of {V : σ → ι → Prop} {s : σ} {cs : List ι} (hs : Inv s)
    (hv : Every step (fun s c _ => V s c) s cs)
    (hiff : ∀ s c, Inv s → V s c → (P s c (step s c) ↔ Q s c (step s c)))
    (hstep : ∀ s c t, Inv s → V s c → Q s c (step s c) → step s c = some t → Inv t) :
    Every step P s cs ↔ Every step Q s cs := by
  induction cs generalizing s with
  | nil => exact Iff.rfl
  | cons c cs ih =>
    rw [Every,Every,hiff s c hs hv.1]
    refine and_congr_right fun hq => forall_congr' fun t => imp_congr_right fun ht => ?_
    exact ih (hstep s c t hs hv.1 hq ht) (hv.2 t ht)

theorem Every.invariant {s t : σ} {cs : List ι} (h : Every step P s cs) (hs : Inv s)
    (hstep : ∀ s c t, Inv s → P s c (step s c) → step s c = some t → Inv t)
    (ht : run step s cs = some t) : Inv t := by
  induction cs generalizing s with
  | nil =>
    cases ht
    exact hs
  | cons c cs ih =>
    obtain ⟨u,hu,ht⟩ := Option.bind_eq_some_iff.mp ht
    exact ih (h.2 u hu) (hstep s c u hs h.1 hu) ht

theorem every_of_forall {V : ι → Prop} (s : σ) {cs : List ι} (hv : ∀ c ∈ cs, V c) :
    Every step (fun _ c _ => V c) s cs := by
  induction cs generalizing s with
  | nil => trivial
  | cons c cs ih =>
    exact ⟨hv c List.mem_cons_self,fun t _ => ih t fun d hd => hv d (List.mem_cons_of_mem c hd)⟩

theorem every_iff {V : ι → Prop} {s : σ} {cs : List ι} (hs : Inv s) (hv : ∀ c ∈ cs, V c)
    (hiff : ∀ s c, Inv s → V c → (P s c (step s c) ↔ Q s c (step s c)))
    (hstep : ∀ s c t, Inv s → V c → Q s c (step s c) → step s c = some t → Inv t) :
    Every step P s cs ↔ Every step Q s cs :=
  every_iff_of hs (every_of_forall s hv) hiff hstep

-- a machine that keeps more beside the state runs as the one without it
theorem run_erase {τ κ : Type} {step' : τ → κ → Option τ} (f : σ → τ) (g : ι → κ)
    (hstep : ∀ s c, (step s c).map f = step' (f s) (g c)) (s : σ) (cs : List ι) :
    (run step s cs).map f = run step' (f s) (cs.map g) := by
  induction cs generalizing s with
  | nil => rfl
  | cons c cs ih =>
    rw [run,List.map_cons,run,← hstep]
    cases step s c with
    | none => rfl
    | some t => exact ih t

-- a step that breaks Q does damage that no later step repairs
theorem run_damage {V Q : σ → ι → Prop} {Good Bad : σ → Prop} {s : σ} {cs : List ι}
    (hgood : ∀ s c, Good s → V s c → ∃ t, step s c = some t ∧ (Q s c → Good t) ∧ (¬ Q s c → Bad t))
    (hbad : ∀ s c, Bad s → V s c → ∃ t, step s c = some t ∧ Bad t) (hs : Good s)
    (hv : Every step (fun s c _ => V s c) s cs) : ∃ t, run step s cs = some t ∧
      (Every step (fun s c _ => Q s c) s cs → Good t) ∧
      (¬ Every step (fun s c _ => Q s c) s cs → Bad t) := by
  have hlost : ∀ s cs, Bad s → Every step (fun s c _ => V s c) s cs → ∃ t, run step s cs = some t ∧
      Bad t := by
    intro s cs hs hv
    induction cs generalizing s with
    | nil => exact ⟨s,rfl,hs⟩
    | cons c cs ih =>
      obtain ⟨u,hu,hbad'⟩ := hbad s c hs hv.1
      obtain ⟨t,ht,hend⟩ := ih u hbad' (hv.2 u hu)
      exact ⟨t,Option.bind_eq_some_iff.mpr ⟨u,hu,ht⟩,hend⟩
  induction cs generalizing s with
  | nil => exact ⟨s,rfl,fun _ => hs,fun hnot => absurd trivial hnot⟩
  | cons c cs ih =>
    obtain ⟨u,hu,hkeep,hbreak⟩ := hgood s c hs hv.1
    by_cases hq : Q s c
    · obtain ⟨t,ht,hgood',hbad'⟩ := ih (hkeep hq) (hv.2 u hu)
      refine ⟨t,Option.bind_eq_some_iff.mpr ⟨u,hu,ht⟩,fun hall => hgood' (hall.2 u hu),
        fun hnot => hbad' fun hall => hnot ⟨hq,fun v hv => ?_⟩⟩
      rw [← Option.some.inj (hu.symm.trans hv)]
      exact hall
    · obtain ⟨t,ht,hend⟩ := hlost u cs (hbreak hq) (hv.2 u hu)
      exact ⟨t,Option.bind_eq_some_iff.mpr ⟨u,hu,ht⟩,fun hall => absurd hall.1 hq,fun _ => hend⟩

theorem foldlM_keeps {P : σ → Prop} {f : σ → ι → Option σ} {l : List ι} {s : σ}
    (h : ∀ s, P s → ∀ i ∈ l, ∃ t, f s i = some t ∧ P t) (hs : P s) :
    ∃ t, l.foldlM f s = some t ∧ P t := by
  induction l generalizing s with
  | nil => exact ⟨s,rfl,hs⟩
  | cons i l ih =>
    obtain ⟨t,ht,hp⟩ := h s hs i List.mem_cons_self
    obtain ⟨u,hu,hq⟩ := ih (fun s hs j hj => h s hs j (List.mem_cons_of_mem i hj)) hp
    refine ⟨u,?_,hq⟩
    rw [List.foldlM_cons,ht]
    exact hu

section Logged

variable {ρ : Type}

-- the machine with the results of its calls beside the state
def logged (step : σ → ι → Option (σ × ρ)) (s : σ × List ρ) (c : ι) : Option (σ × List ρ) :=
  (step s.1 c).map fun r => (r.1,s.2 ++ [r.2])

-- P is indexed by the calls made so far and by what they returned
theorem run_logged {step : σ → ι → Option (σ × ρ)} {P : List ι → List ρ → σ → Prop}
    (hstep : ∀ done results s c, P done results s →
      ∃ t r, step s c = some (t,r) ∧ P (done ++ [c]) (results ++ [r]) t) {s : σ} (hs : P [] [] s)
    (cs : List ι) : ∃ t results, run (logged step) (s,[]) cs = some (t,results) ∧ P cs results t := by
  have hrun : ∀ cs done results s, P done results s →
      ∃ t more, run (logged step) (s,results) cs = some (t,more) ∧ P (done ++ cs) more t := by
    intro cs
    induction cs with
    | nil =>
      intro done results s hs
      rw [List.append_nil]
      exact ⟨s,results,rfl,hs⟩
    | cons c cs ih =>
      intro done results s hs
      obtain ⟨u,r,hu,hkept⟩ := hstep done results s c hs
      obtain ⟨t,more,ht,hend⟩ := ih (done ++ [c]) (results ++ [r]) u hkept
      rw [List.append_assoc,List.singleton_append] at hend
      refine ⟨t,more,?_,hend⟩
      rw [run,logged,hu]
      exact ht
  exact hrun cs [] [] s hs

-- two machines whose steps return the same keep their relation over runs
theorem run_logged_simulates {τ : Type} {step : σ → ι → Option (σ × ρ)}
    {step' : τ → ι → Option (τ × ρ)} {R : σ → τ → Prop} {V : τ → ι → Prop}
    (hsim : ∀ s b c, R s b → V b c →
      ∃ t u r, step s c = some (t,r) ∧ step' b c = some (u,r) ∧ R t u) {s : σ} {b : τ}
    (hR : R s b) {cs : List ι}
    (hv : Every (fun b c => (step' b c).map Prod.fst) (fun b c _ => V b c) b cs) :
    ∃ t u results, run (logged step) (s,[]) cs = some (t,results) ∧
      run (logged step') (b,[]) cs = some (u,results) ∧ R t u := by
  have hrun : ∀ results, ∃ t u more, run (logged step) (s,results) cs = some (t,more) ∧
      run (logged step') (b,results) cs = some (u,more) ∧ R t u := by
    induction cs generalizing s b with
    | nil => exact fun results => ⟨s,b,results,rfl,rfl,hR⟩
    | cons c cs ih =>
      intro results
      obtain ⟨s',b',r,hs',hb',hR'⟩ := hsim s b c hR hv.1
      have hfirst : (step' b c).map Prod.fst = some b' := by rw [hb',Option.map_some]
      obtain ⟨t,u,more,ht,hu,hend⟩ := ih hR' (hv.2 b' hfirst) (results ++ [r])
      refine ⟨t,u,more,?_,?_,hend⟩
      · rw [run,logged,hs']
        exact ht
      · rw [run,logged,hb']
        exact hu
  exact hrun []

end Logged

theorem run_eq_foldlM (s : σ) (cs : List ι) : run step s cs = cs.foldlM step s := by
  induction cs generalizing s with
  | nil => rfl
  | cons c cs ih =>
    rw [List.foldlM_cons]
    exact Option.bind_congr fun t _ => ih t

end Run
