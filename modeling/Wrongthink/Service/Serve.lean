import Wrongthink.Service.Frame

/-!
# One request after the other

The sequential use of the server: each request is handled to its end before the next one arrives.
Between two actions the clock and the sequences may still drift and any database call may still
fail, so what holds for every such history holds for every outcome a client can see.

`serve` is the undisturbed history of a list of requests, for the cases that are computed.
-/

namespace Wrongthink

open Concurrent

variable {b : Backend}

/-- One request with the actions its handler performed and what it came to. -/
structure Served (b : Backend) where
  request : Request
  actions : List (Action b)
  reply : Reply

/-- The handler performed these actions, from `w` to `w'`, and answered. -/
structure Served.Handled (s : Served b) (w w' : World b) : Prop where
  trace : s.request.handle.Trace s.actions (.done s.reply)
  run : Run Op.Step w s.actions w'

/-- A history of requests. -/
inductive Serve : World b → List (Served b) → World b → Prop where
  | nil (w) : Serve w [] w
  | cons {s : Served b} {w w₁ w' ss} : s.Handled w w₁ → Serve w₁ ss w' → Serve w (s :: ss) w'

theorem Served.Handled.grows {s : Served b} {w w' : World b} (h : s.Handled w w') : w.Grows w' :=
  (h.run.le fun _ _ hs ↦ hs.grows).1

theorem Served.Handled.frame {s : Served b} {w w' : World b} (h : s.Handled w w') {T : Table}
    (hT : s.request.target ≠ some T) : w'.db.rows T = w.db.rows T := by
  have honly := (s.request.handle_only.trace h.trace).1
  refine h.run.preserves (I := fun v ↦ v.db.rows T = w.db.rows T) (fun e he hs hbefore ↦ ?_) rfl
  rw [hs.frame T ((honly e he).target_ne hT), hbefore]

namespace Serve

theorem append_iff {w w' : World b} {ss ss' : List (Served b)} :
    Serve w (ss ++ ss') w' ↔ ∃ w₁, Serve w ss w₁ ∧ Serve w₁ ss' w' := by
  induction ss generalizing w with
  | nil =>
    refine ⟨fun h ↦ ⟨w, .nil w, h⟩, ?_⟩
    rintro ⟨w₁, h, h'⟩
    cases h
    exact h'
  | cons s ss ih =>
    constructor
    · intro h
      cases h with
      | cons hs h =>
        obtain ⟨w₂, h₁, h₂⟩ := ih.mp h
        exact ⟨w₂, .cons hs h₁, h₂⟩
    · rintro ⟨w₂, h₁, h₂⟩
      cases h₁ with
      | cons hs h₁ => exact .cons hs (ih.mpr ⟨w₂, h₁, h₂⟩)

theorem handled_of_mem {w w' : World b} {ss : List (Served b)} {s : Served b} (h : Serve w ss w')
    (hs : s ∈ ss) : ∃ v v', s.Handled v v' := by
  induction h with
  | nil => simp at hs
  | @cons t w w₁ _ _ ht _ ih =>
    rcases List.mem_cons.mp hs with rfl | hs
    · exact ⟨w, w₁, ht⟩
    · exact ih hs

theorem grows {w w' : World b} {ss : List (Served b)} (h : Serve w ss w') : w.Grows w' := by
  induction h with
  | nil w => exact refl_of World.Grows w
  | cons hs _ ih => exact trans_of World.Grows hs.grows ih

/-- In the history `ss` from `w`, the request `s` is handled from `v` to `v'`. -/
def Passes (w : World b) (ss : List (Served b)) (s : Served b) (v v' : World b) : Prop :=
  ∃ ss₁ ss₂, ss = ss₁ ++ s :: ss₂ ∧ Serve w ss₁ v ∧ s.Handled v v'

theorem exists_passes {w w' : World b} {ss : List (Served b)} {s : Served b} (h : Serve w ss w')
    (hs : s ∈ ss) :
    ∃ v v', Passes w ss s v v' ∧ s.Handled v v' ∧ v'.Grows w' := by
  obtain ⟨ss₁, ss₂, rfl⟩ := List.append_of_mem hs
  obtain ⟨v, h₁, h₂⟩ := Serve.append_iff.mp h
  cases h₂ with
  | @cons _ _ v' _ _ hs h₂ => exact ⟨v, v', ⟨ss₁, ss₂, rfl, h₁, hs⟩, hs, h₂.grows⟩

theorem Passes.cons {w w₁ v v' : World b} {ss : List (Served b)} {s t : Served b}
    (h : Passes w₁ ss t v v') (hs : s.Handled w w₁) : Passes w (s :: ss) t v v' := by
  obtain ⟨ss₁, ss₂, rfl, h₁, ht⟩ := h
  exact ⟨s :: ss₁, ss₂, rfl, .cons hs h₁, ht⟩

end Serve

/-- A request that is handled with nothing drifting and nothing failing. -/
theorem Served.handled_of_exec {r : Request} {actions : List (Action b)} {reply : Reply}
    {w w' : World b} (h : r.handle.exec Op.exec w = (actions, .ok reply, w')) :
    (⟨r, actions, reply⟩ : Served b).Handled w w' := by
  obtain ⟨hrun, p', htr, hout⟩ := Prog.exec_sound Op.step_exec r.handle w
  rw [h] at hrun htr hout
  have hp' : p' = .done reply := Prog.eq_done_of_outcome hout
  rw [hp'] at htr
  exact ⟨htr, hrun⟩

/-- The undisturbed history of a list of requests, up to the first that ends in an exception. -/
def serve : World b → List Request → List (Served b) × World b
  | w, [] => ([], w)
  | w, r :: rs =>
    match r.handle.exec Op.exec w with
    | (actions, .ok reply, w₁) =>
      let (ss, w') := serve w₁ rs
      (⟨r, actions, reply⟩ :: ss, w')
    | (_, .error _, _) => ([], w)

theorem serve_of_ok {w w₁ : World b} {r : Request} {actions : List (Action b)} {reply : Reply}
    (h : r.handle.exec Op.exec w = (actions, .ok reply, w₁)) (rs : List Request) :
    serve w (r :: rs) = (⟨r, actions, reply⟩ :: (serve w₁ rs).1, (serve w₁ rs).2) := by
  rw [serve, h]

theorem serve_of_error {w w₁ : World b} {r : Request} {actions : List (Action b)} {e : Exn}
    (h : r.handle.exec Op.exec w = (actions, .error e, w₁)) (rs : List Request) :
    serve w (r :: rs) = ([], w) := by
  rw [serve, h]

theorem serve_sound (w : World b) (rs : List Request) : Serve w (serve w rs).1 (serve w rs).2 := by
  induction rs generalizing w with
  | nil => exact .nil w
  | cons r rs ih =>
    rw [serve]
    rcases hexec : r.handle.exec Op.exec w with ⟨actions, (e | reply), w₁⟩
    · exact .nil w
    · exact .cons (Served.handled_of_exec hexec) (ih w₁)

theorem request_of_mem_serve {w : World b} {r : Request} {s : Served b}
    (hs : s ∈ (serve w [r]).1) : s.request = r := by
  rcases hexec : r.handle.exec Op.exec w with ⟨actions, (e | reply), w₁⟩
  · rw [serve_of_error hexec] at hs
    cases hs
  · rw [serve_of_ok hexec] at hs
    rw [List.mem_singleton.mp hs]

theorem Serve.Passes.of_serve {w v v' : World b} {r : Request} {rs : List Request} {s : Served b}
    (h : Passes w (serve w (r :: rs)).1 s v v') : (s ∈ (serve w [r]).1 ∧ v = w) ∨
      Passes (serve w [r]).2 (serve (serve w [r]).2 rs).1 s v v' := by
  obtain ⟨ss₁, ss₂, hss, hserve, hs⟩ := h
  rcases hexec : r.handle.exec Op.exec w with ⟨actions, (e | reply), w₁⟩
  · rw [serve_of_error hexec] at hss
    simp at hss
  rw [serve_of_ok hexec] at hss ⊢
  cases ss₁ with
  | nil =>
    cases hserve
    exact .inl ⟨List.mem_singleton.mpr (List.cons.inj hss).1.symm, rfl⟩
  | cons s₁ ss₁ =>
    obtain ⟨rfl, htail⟩ := List.cons.inj hss
    cases hserve with
    | @cons _ _ w₂ _ _ hs₁ hserve =>
      obtain rfl : w₁ = w₂ := (Served.handled_of_exec hexec).run.unique hs₁.run
      exact .inr ⟨ss₁, ss₂, htail, hserve, hs⟩

end Wrongthink
