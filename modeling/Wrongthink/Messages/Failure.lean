import Wrongthink.Messages.History
import Wrongthink.Messages.Order

/-!
# A send whose insert fails

A send appends its message to the live log and notifies the listeners before it inserts the message
into the table, and nothing takes the append back when the insert raises. The last three actions of
such a send are the append, the notification and the failed insert (`failing`), so the log has
gained one message more than the table, the listeners that were blocked have been woken, and what
they are handed is the message that was not stored (`not_leavesNoTrace`).
-/

namespace Wrongthink

open Concurrent WrongthinkServiceImpl

variable {b : Backend}

/-! ## The actions of a failing send -/

theorem lostInsert_append {tr tr' : List (Action b)} :
    LostInsert (tr ++ tr') ↔ LostInsert tr ∨ LostInsert tr' := by
  simp [LostInsert, List.mem_append, or_and_right, exists_or]

theorem lostInsert_cons {e : Action b} {tr : List (Action b)} :
    LostInsert (e :: tr) ↔
      (e.op.target = some .message ∧ e.result.isOk = false) ∨ LostInsert tr := by
  simp [LostInsert]

theorem not_lostInsert_nil : ¬LostInsert ([] : List (Action b)) := by
  simp [LostInsert]

/-- The append, the notification, and the insert that fails. -/
def failing (msg : WrongthinkMessage) (w₁ w₁' w₂ w₂' w₃ w₃' : World b) (e : Exn) :
    List (Action b) :=
  [⟨w₁, .push msg.channelid msg, .ok (), w₁'⟩, ⟨w₂, .notifyAll msg.channelid, .ok (), w₂'⟩,
    ⟨w₃, .sql (.insertMessage msg.userid msg.channelid msg.threadid msg.threadchild msg.text),
      .error e, w₃'⟩]

theorem marks_failing (msg : WrongthinkMessage) (w₁ w₁' w₂ w₂' w₃ w₃' : World b) (e : Exn) :
    marks (failing msg w₁ w₁' w₂ w₂' w₃ w₃' e) = [.append msg.channelid msg] := rfl

theorem not_lostInsert_of_quiet {tr : List (Action b)} (h : ∀ e ∈ tr, e.op.Quiet) :
    ¬LostInsert tr := by
  rintro ⟨e, he, htarget, _⟩
  rw [(h e he).1] at htarget
  cases htarget

/-- **One message.** The insert is its last action. -/
theorem sendOne_lost {msg : WrongthinkMessage} {tr : List (Action b)} {p' : Routine Unit}
    (hstep : ∀ e ∈ tr, Op.Step e.op e.before e.result e.after) (h : (sendOne msg).Trace tr p')
    (hlost : LostInsert tr) :
    ∃ tr₀ w₁ w₁' w₂ w₂' w₃ w₃' e, tr = tr₀ ++ failing msg w₁ w₁' w₂ w₂' w₃ w₃' e ∧
      marks tr₀ = [] ∧ p' = .raise e := by
  obtain ⟨tr₀, tr₁, rfl, hquiet, hcases⟩ := trace_sendOne hstep h
  have hlost₁ : LostInsert tr₁ :=
    (lostInsert_append.mp hlost).resolve_left (not_lostInsert_of_quiet hquiet)
  rcases hcases with ⟨rfl, _⟩ | ⟨w₁, w₁', rfl, _⟩ | ⟨w₁, w₁', w₂, w₂', rfl, _⟩ |
    ⟨w₁, w₁', w₂, w₂', w₃, r, w₃', rfl, hout⟩
  · exact absurd hlost₁ not_lostInsert_nil
  · simp [lostInsert_cons, not_lostInsert_nil, Op.target] at hlost₁
  · simp [lostInsert_cons, not_lostInsert_nil, Op.target] at hlost₁
  cases r with
  | ok v =>
    simp [lostInsert_cons, not_lostInsert_nil, Op.target, Except.isOk, Except.toBool] at hlost₁
  | error e =>
    exact ⟨tr₀, w₁, w₁', w₂, w₂', w₃, w₃', e, rfl, marks_eq_nil fun e he ↦ (hquiet e he).2,
      Prog.eq_raise_of_outcome hout⟩

/-- **The loop.** It ends with the message whose insert fails. -/
theorem sendLoop_lost {ms : List WrongthinkMessage} {tr : List (Action b)}
    {p' : Routine (Status × Unit)} (hstep : ∀ e ∈ tr, Op.Step e.op e.before e.result e.after)
    (h : (sendLoop ms).Trace tr p') (hlost : LostInsert tr) :
    ∃ ms₁ msg ms₂ tr₀ w₁ w₁' w₂ w₂' w₃ w₃' e, ms = ms₁ ++ msg :: ms₂ ∧
      tr = tr₀ ++ failing msg w₁ w₁' w₂ w₂' w₃ w₃' e ∧ marks tr₀ = ms₁.flatMap sendMarks ∧
        p' = .raise e := by
  induction ms generalizing tr with
  | nil =>
    obtain ⟨rfl, _⟩ := Prog.trace_done_iff.mp h
    exact absurd hlost not_lostInsert_nil
  | cons m ms ih =>
    rw [sendLoop_cons] at h
    rcases h.of_bind with ⟨q, hq, _, rfl⟩ | ⟨⟨⟩, tr₁, tr₂, rfl, h₁, h₂⟩
    · obtain ⟨tr₀, w₁, w₁', w₂, w₂', w₃, w₃', e, htr, hmarks, rfl⟩ := sendOne_lost hstep hq hlost
      exact ⟨[], m, ms, tr₀, w₁, w₁', w₂, w₂', w₃, w₃', e, rfl, htr, hmarks, rfl⟩
    · have hstep₁ : ∀ e ∈ tr₁, Op.Step e.op e.before e.result e.after :=
        fun e he ↦ hstep e (List.mem_append_left _ he)
      -- a message that has been dealt with has not failed
      have hlost₂ : LostInsert tr₂ := by
        refine (lostInsert_append.mp hlost).resolve_left fun hlost₁ ↦ ?_
        obtain ⟨_, _, _, _, _, _, _, _, _, _, hraise⟩ := sendOne_lost hstep₁ h₁ hlost₁
        cases hraise
      obtain ⟨_, hmarks⟩ | ⟨hne, _⟩ := marks_sendOne hstep₁ h₁
      swap
      · exact absurd rfl hne
      obtain ⟨ms₁, msg, ms₂, tr₀, w₁, w₁', w₂, w₂', w₃, w₃', e, rfl, rfl, hmarks₀, rfl⟩ :=
        ih (fun e he ↦ hstep e (List.mem_append_right _ he)) h₂ hlost₂
      refine ⟨m :: ms₁, msg, ms₂, tr₁ ++ tr₀, w₁, w₁', w₂, w₂', w₃, w₃', e, rfl, ?_, ?_, rfl⟩
      · rw [List.append_assoc]
      · rw [marks_append, hmarks, hmarks₀, List.flatMap_cons]

/-- **A send.** -/
theorem handle_lost {r : Request} {tr : List (Action b)} {reply : Reply}
    (hstep : ∀ e ∈ tr, Op.Step e.op e.before e.result e.after)
    (h : r.handle.Trace tr (.done reply)) (hlost : LostInsert tr) :
    ∃ ms₁ msg ms₂ tr₀ w₁ w₁' w₂ w₂' w₃ w₃' e, r.sends = ms₁ ++ msg :: ms₂ ∧
      tr = tr₀ ++ failing msg w₁ w₁' w₂ w₂' w₃ w₃' e ∧ marks tr₀ = ms₁.flatMap sendMarks ∧
        reply = (Status.INTERNAL, .empty) := by
  have hr : r.target = some .message := by
    by_contra hr
    obtain ⟨e, he, htarget, _⟩ := hlost
    exact ((r.handle_only.trace h).1 e he).target_ne hr htarget
  rw [Request.handle_of_target_message hr] at h
  obtain ⟨q, hq, hreply⟩ := trace_caught h
  rcases Prog.trace_perform_bind_iff.mp hq with
    ⟨rfl, _⟩ | ⟨w₀, v₀, w₀', tr', rfl, hloop⟩ | ⟨_, _, _, rfl, _⟩
  · exact absurd hlost not_lostInsert_nil
  swap
  · simp [lostInsert_cons, not_lostInsert_nil, Op.target] at hlost
  have hlost' : LostInsert tr' := by simpa [lostInsert_cons, Op.target] using hlost
  obtain ⟨ms₁, msg, ms₂, tr₀, w₁, w₁', w₂, w₂', w₃, w₃', e, hms, rfl, hmarks, rfl⟩ :=
    sendLoop_lost (fun e he ↦ hstep e (List.mem_cons_of_mem _ he)) hloop hlost'
  rw [caught_raise, Prog.done.injEq] at hreply
  exact ⟨ms₁, msg, ms₂, ⟨w₀, .session, .ok v₀, w₀'⟩ :: tr₀, w₁, w₁', w₂, w₂', w₃, w₃', e, hms, rfl,
    hmarks, hreply⟩

/-! ## What is left behind -/

namespace Served

/-- The messages that the table has gained are the only trace of the request. -/
structure LeavesNoTrace (s : Served b) (w w' : World b) : Prop where
  rows : ∃ new, w'.db.message.rows = w.db.message.rows ++ new ∧
    new.map MessageRow.bound = s.stored.map WrongthinkMessage.bound
  log : ∀ ch, w'.log ch = w.log ch ++ s.stored.filter (·.channelid = ch)
  last : ∀ ch, w'.last ch = ((s.stored.filter (·.channelid = ch)).getLast?).getD (w.last ch)
  /-- A listener is woken for a message that has been stored, or not at all. -/
  woken : ∀ ch, s.stored.filter (·.channelid = ch) = [] → w'.waiters ch = w.waiters ch

/-- The first message that was not stored is in the live log all the same, and its listeners have
been woken and will be handed it. -/
structure Leaves (s : Served b) (w w' : World b) (msg : WrongthinkMessage) : Prop where
  failed : ∃ ms₂, s.request.sends = s.stored ++ msg :: ms₂
  reply : s.reply = (Status.INTERNAL, .empty)
  rows : ∃ new, w'.db.message.rows = w.db.message.rows ++ new ∧
    new.map MessageRow.bound = s.stored.map WrongthinkMessage.bound
  log : ∀ ch, w'.log ch = w.log ch ++ (s.stored ++ [msg]).filter (·.channelid = ch)
  last : w'.last msg.channelid = msg
  woken : w'.waiters msg.channelid = []

theorem Leaves.traced {s : Served b} {w w' : World b} {msg : WrongthinkMessage}
    (h : s.Leaves w w' msg) : ¬s.LeavesNoTrace w w' := by
  intro hno
  have hlog := h.log msg.channelid
  rw [hno.log, List.append_cancel_left_eq, List.filter_append, List.self_eq_append_right] at hlog
  simp at hlog

end Served

/-- The marks of a send that failed at `msg`, on one channel of the log. -/
theorem appended_of_lost (ms₁ : List WrongthinkMessage) (msg : WrongthinkMessage) (ch : ℤ) :
    ((ms₁.flatMap sendMarks ++ [Mark.append msg.channelid msg]).filter (Mark.on ch)).filterMap
      Mark.appended? = (ms₁ ++ [msg]).filter (·.channelid = ch) := by
  rw [List.filter_append, List.filterMap_append, filter_on_flatMap_sendMarks,
    appended_flatMap_sendMarks, List.filter_append]
  congr 1
  by_cases hch : msg.channelid = ch <;> simp [Mark.on, Mark.appended?, hch]

theorem Served.Handled.leaves {s : Served b} {w w' : World b} (h : s.Handled w w')
    (hlost : LostInsert s.actions) : ∃ msg, s.Leaves w w' msg := by
  obtain ⟨htr, hrun⟩ := h
  obtain ⟨ms₁, msg, ms₂, tr₀, w₁, w₁', w₂, w₂', w₃, w₃', e, hms, hactions, hmarks₀, hreply⟩ :=
    handle_lost (fun e he ↦ hrun.sem_of_mem he) htr hlost
  have hindex : ∀ e ∈ s.actions, Indexed e.op e.before e.result e.after :=
    ((handle_indexing s.request w).run htr hrun).2
  have hmarks : marks s.actions = ms₁.flatMap sendMarks ++ [.append msg.channelid msg] := by
    rw [hactions, marks_append, hmarks₀, marks_failing]
  have hinserted : (marks s.actions).filterMap Mark.inserted? =
      ms₁.map WrongthinkMessage.bound := by
    rw [hmarks, List.filterMap_append, inserted_flatMap_sendMarks]
    simp [Mark.inserted?]
  have hstored : s.stored = ms₁ := by
    rw [Served.stored, hinserted, hms, List.length_map, List.take_left']
    rfl
  have hrows := rows_of_run hrun
  rw [hinserted, ← hstored] at hrows
  have hlog : ∀ ch, w'.log ch = w.log ch ++ (s.stored ++ [msg]).filter (·.channelid = ch) := by
    intro ch
    rw [log_of_run hrun hindex ch, hmarks, appended_of_lost, hstored]
  -- the three actions at the end
  rw [hactions] at hrun hindex
  obtain ⟨v, _, hend⟩ := run_append_iff.mp hrun
  obtain ⟨_, hpush, hend⟩ := run_cons_iff.mp hend
  obtain ⟨h₂, hnotify, hend⟩ := run_cons_iff.mp hend
  obtain ⟨h₃, hinsert, hend⟩ := run_cons_iff.mp hend
  have h₄ : w' = w₃' := run_nil_iff.mp hend
  dsimp only at h₂ h₃
  subst h₂ h₃ h₄
  have hlast : w₂.last msg.channelid = msg :=
    hpush.last_push (hindex ⟨w₁, .push msg.channelid msg, .ok (), w₂⟩ (by simp [failing]))
  have hwoken : w₃.waiters msg.channelid = [] :=
    hnotify.waiters_notifyAll
      (hindex ⟨w₂, .notifyAll msg.channelid, .ok (), w₃⟩ (by simp [failing]))
  refine ⟨msg, ⟨ms₂, by rw [hstored, hms]⟩, hreply, hrows, hlog, ?_, ?_⟩
  · rw [hinsert.last_eq (by simp), hnotify.last_eq (by simp), hlast]
  · rw [← hwoken]
    refine hinsert.entry_eq (g := (·.channelCondition_)) (fun _ _ ↦ rfl) fun f hf ↦ ?_
    cases hf

/-- **A failed send leaves its message behind.** Whatever the state and the messages, and whether
the insert was refused or lost: the live log has gained the stored messages and the one that was
not, and the listeners on its channel have been woken. -/
theorem not_leavesNoTrace {s : Served b} {w w' : World b} (h : s.Handled w w')
    (hlost : LostInsert s.actions) : ¬s.LeavesNoTrace w w' ∧ ∃ msg, s.Leaves w w' msg := by
  obtain ⟨msg, hleaves⟩ := h.leaves hlost
  exact ⟨hleaves.traced, msg, hleaves⟩

/-! ## A sender nobody knows -/

/-- A server with one user and one channel. -/
private def oneChannel : World .postgres :=
  (serve (World.start .postgres 0) [.CreateUser ⟨"ann", "pw", false⟩,
    .CreateWrongthinkCommunity ⟨"all", 1, true⟩, .CreateWrongthinkChannel ⟨"main", 1, false, 1⟩]).2

private def fromUnknown : Request :=
  .SendWrongthinkMessageWeb ⟨"bob", "", 1, 5, 0, 0, false, "hello", 0, 0⟩

private def refused : Served .postgres :=
  ⟨fromUnknown, (fromUnknown.handle.exec Op.exec oneChannel).1, (Status.INTERNAL, .empty)⟩

private theorem handled_refused :
    refused.Handled oneChannel (fromUnknown.handle.exec Op.exec oneChannel).2.2 :=
  Served.handled_of_exec rfl

theorem not_leavesNoTrace_refused :
    ¬refused.LeavesNoTrace oneChannel (fromUnknown.handle.exec Op.exec oneChannel).2.2 ∧
      ∃ msg, refused.Leaves oneChannel (fromUnknown.handle.exec Op.exec oneChannel).2.2 msg :=
  not_leavesNoTrace handled_refused (by decide)

/-- The message of an unknown user is refused by the table and shown to the listeners. -/
theorem exists_traceLeft :
    ¬∀ (s : Served .postgres) (w w' : World .postgres), s.Handled w w' → LostInsert s.actions →
      s.LeavesNoTrace w w' := by
  intro h
  obtain ⟨_, hleaves⟩ := handled_refused.leaves (by decide)
  exact hleaves.traced (h _ _ _ handled_refused (by decide))

end Wrongthink
