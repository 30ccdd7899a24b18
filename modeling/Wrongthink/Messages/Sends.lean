import Wrongthink.Service.Frame

/-!
# A send, message by message

The unary send is the stream of one message, so both handlers are one loop under one `catch`. For
each message the loop sees to it that the channel has an entry, appends the message to the entry,
and inserts it into the table. The last two are the *marks* a send leaves: `sendMarks` lists them
for one message, and a handler's marks are at all times those of the first few messages of its
stream, but for a last message that may have been appended and not inserted (`marks_send`).
-/

namespace Wrongthink

open Concurrent

variable {b : Backend}

namespace WrongthinkServiceImpl

/-! ## One message -/

/-- What `checkForChannel` comes down to: the indicator it tests is never `i_null`. -/
def cacheChannel (channelid : ℤ) : Routine Unit := do
  let n ← perform (.count channelid)
  if n ≠ 1 then
    let name ← sql (.selectChannelName channelid)
    perform (.emplace channelid (name.getD ""))

theorem cacheChannel_only {P : Op → Prop} {channelid : ℤ} (hcount : P (.count channelid))
    (hselect : P (.sql (.selectChannelName channelid)))
    (hemplace : ∀ name, P (.emplace channelid name)) : (cacheChannel channelid).Only P := by
  refine (Prog.only_perform_bind _ _ _).mpr ⟨hcount, fun n ↦ ?_⟩
  split
  · refine (Prog.only_perform_bind _ _ _).mpr ⟨hselect, fun name ↦ ?_⟩
    exact (Prog.only_perform _ _).mpr (hemplace _)
  · trivial

theorem checkForChannel_eq (channelid : ℤ) :
    checkForChannel channelid = do
      cacheChannel channelid
      return true := by
  rw [checkForChannel, cacheChannel, Prog.bind_assoc]
  congr 1
  funext n
  split
  · rw [DBPostgres.getChannelRow, Prog.bind_assoc, Prog.bind_assoc]
    rfl
  · rfl

/-- One turn of the loop. -/
def sendOne (msg : WrongthinkMessage) : Routine Unit := do
  cacheChannel msg.channelid
  appendMessage msg.channelid msg
  sql (.insertMessage msg.userid msg.channelid msg.threadid msg.threadchild msg.text)

theorem sendLoop_cons (msg : WrongthinkMessage) (reader : List WrongthinkMessage) :
    sendLoop (msg :: reader) = sendOne msg >>= fun _ ↦ sendLoop reader := by
  rw [sendLoop, checkForChannel_eq, sendOne, Prog.bind_assoc, Prog.bind_assoc]
  congr 1
  funext _
  rw [Prog.bind_assoc]
  rfl

theorem sendWrongthinkMessageWeb_eq (msg : WrongthinkMessage) :
    sendWrongthinkMessageWeb msg = sendWrongthinkMessageImpl [msg] := rfl

end WrongthinkServiceImpl

open WrongthinkServiceImpl

namespace Request

/-- The messages that a request sends. -/
def sends : Request → List WrongthinkMessage
  | SendWrongthinkMessageWeb msg => [msg]
  | SendWrongthinkMessage reader => reader
  | _ => []

theorem handle_of_target_message {r : Request} (hr : r.target = some .message) :
    r.handle = caught (fun _ ↦ .empty) () (do perform .session; sendLoop r.sends) := by
  cases r with
  | SendWrongthinkMessageWeb msg =>
    rw [handle, sendWrongthinkMessageWeb_eq]
    rfl
  | SendWrongthinkMessage reader => rfl
  | _ => cases hr

end Request

/-- Listening, with the test that never fails left out. -/
theorem handle_listen (channelid : ℤ) (l : ThreadId) (turns : ℕ) :
    (Request.ListenWrongthinkMessages channelid l turns).handle = do
      perform .session
      cacheChannel channelid
      perform (.index channelid)
      listenLoop channelid l turns
      return (Status.OK, .empty) := by
  rw [Request.handle, respond, listenWrongthinkMessagesImpl, checkForChannel_eq, Prog.bind_assoc]
  congr 1
  funext _
  rw [Prog.bind_assoc, Prog.bind_assoc]
  congr 1
  funext _
  change (perform (.index channelid) >>= fun _ ↦ listenLoop channelid l turns >>= fun _ ↦
    (Prog.done (Status.OK, ()) : Routine (Status × Unit))) >>= _ = _
  rw [Prog.bind_assoc]
  congr 1
  funext _
  rw [Prog.bind_assoc]
  rfl

/-! ## Marks -/

/-- The values that an insert into `message` binds. -/
structure Bound where
  user_id : ℤ
  channel : ℤ
  thread_id : ℤ
  thread_child : ℤ
  mtext : String
  deriving DecidableEq

def WrongthinkMessage.bound (m : WrongthinkMessage) : Bound :=
  ⟨m.userid, m.channelid, m.threadid, m.threadchild, m.text⟩

def MessageRow.bound (r : MessageRow) : Bound :=
  ⟨r.user_id, r.channel, r.thread_id, r.thread_child, r.mtext⟩

inductive Mark where
  | append (id : ℤ) (msg : WrongthinkMessage)
  | insert (v : Bound)
  deriving DecidableEq

/-- The mark that an action leaves when it answers. -/
def Op.mark : (o : Op) → Except Exn o.Result → Option Mark
  | .push id msg, .ok _ => some (.append id msg)
  | .sql (.insertMessage user_id channel thread_id thread_child mtext), .ok _ =>
    some (.insert ⟨user_id, channel, thread_id, thread_child, mtext⟩)
  | _, _ => none

/-- The marks of some actions. -/
def marks (tr : List (Action b)) : List Mark := tr.filterMap fun e ↦ e.op.mark e.result

def sendMarks (m : WrongthinkMessage) : List Mark := [.append m.channelid m, .insert m.bound]

theorem marks_append (tr tr' : List (Action b)) : marks (tr ++ tr') = marks tr ++ marks tr' :=
  List.filterMap_append

theorem marks_eq_nil {tr : List (Action b)} (h : ∀ e ∈ tr, ∀ r, e.op.mark r = none) :
    marks tr = [] := List.filterMap_eq_nil_iff.mpr fun e he ↦ h e he e.result

/-- Some insert has failed. -/
def LostInsert (tr : List (Action b)) : Prop :=
  ∃ e ∈ tr, e.op.target = some .message ∧ e.result.isOk = false

instance (tr : List (Action b)) : Decidable (LostInsert tr) :=
  inferInstanceAs (Decidable (∃ e ∈ tr, _))

/-- An action that neither marks nor inserts. -/
def Op.Quiet (o : Op) : Prop := o.target = none ∧ ∀ r, o.mark r = none

theorem cacheChannel_quiet (channelid : ℤ) : (cacheChannel channelid).Only Op.Quiet :=
  cacheChannel_only ⟨rfl, fun _ ↦ rfl⟩ ⟨rfl, fun _ ↦ rfl⟩ fun _ ↦ ⟨rfl, fun _ ↦ rfl⟩

/-- **One message.** The lookup of its channel, the append, the notification and the insert. Of
these the insert alone may fail once the append is made. -/
theorem trace_sendOne {msg : WrongthinkMessage} {tr : List (Action b)} {p' : Routine Unit}
    (hstep : ∀ e ∈ tr, Op.Step e.op e.before e.result e.after) (h : (sendOne msg).Trace tr p') :
    ∃ tr₀ tr₁, tr = tr₀ ++ tr₁ ∧ (∀ e ∈ tr₀, e.op.Quiet) ∧
      ((tr₁ = [] ∧ p' ≠ .done ()) ∨
        (∃ w₁ w₁', tr₁ = [⟨w₁, .push msg.channelid msg, .ok (), w₁'⟩] ∧ p'.outcome = none) ∨
        (∃ w₁ w₁' w₂ w₂', tr₁ = [⟨w₁, .push msg.channelid msg, .ok (), w₁'⟩,
          ⟨w₂, .notifyAll msg.channelid, .ok (), w₂'⟩] ∧ p'.outcome = none) ∨
        ∃ w₁ w₁' w₂ w₂' w₃ r w₃', tr₁ = [⟨w₁, .push msg.channelid msg, .ok (), w₁'⟩,
          ⟨w₂, .notifyAll msg.channelid, .ok (), w₂'⟩,
          ⟨w₃, .sql (.insertMessage msg.userid msg.channelid msg.threadid msg.threadchild msg.text),
            r, w₃'⟩] ∧ p'.outcome = some r) := by
  rw [sendOne] at h
  rcases h.of_bind with ⟨q, hq, hne, rfl⟩ | ⟨⟨⟩, tr₁, tr₂, rfl, h₁, h₂⟩
  · exact ⟨tr, [], (List.append_nil _).symm, ((cacheChannel_quiet _).trace hq).1,
      .inl ⟨rfl, Prog.bind_ne_done hne _ _⟩⟩
  have hquiet := ((cacheChannel_quiet _).trace h₁).1
  have hlookup : ∀ (w : World b) r w',
      ∀ e ∈ tr₁ ++ [⟨w, .index msg.channelid, r, w'⟩], e.op.Quiet :=
    fun _ _ _ ↦ List.forall_mem_append.mpr
      ⟨hquiet, List.forall_mem_singleton.mpr ⟨rfl, fun _ ↦ rfl⟩⟩
  rw [appendMessage, Prog.bind_assoc] at h₂
  rcases Prog.trace_perform_bind_iff.mp h₂ with
    ⟨rfl, rfl⟩ | ⟨w₀, v₀, w₀', tr₃, rfl, h₃⟩ | ⟨w₀, e, w₀', rfl, rfl⟩
  · exact ⟨tr₁, [], rfl, hquiet, .inl ⟨rfl, Prog.perform_bind_ne_done _ _ _⟩⟩
  swap
  · exact ⟨_, [], (List.append_nil _).symm, hlookup _ _ _, .inl ⟨rfl, by simp⟩⟩
  refine ⟨tr₁ ++ [⟨w₀, .index msg.channelid, .ok v₀, w₀'⟩], tr₃, by simp, hlookup _ _ _, ?_⟩
  rw [Prog.bind_assoc] at h₃
  rcases Prog.trace_perform_bind_iff.mp h₃ with
    ⟨rfl, rfl⟩ | ⟨w₁, _, w₁', tr₄, rfl, h₄⟩ | ⟨w₁, e, w₁', rfl, rfl⟩
  · exact .inl ⟨rfl, Prog.perform_bind_ne_done _ _ _⟩
  swap
  · obtain ⟨v, hv⟩ := (hstep ⟨w₁, .push msg.channelid msg, .error e, w₁'⟩
      (by simp)).ok_of_not_store rfl
    cases hv
  rcases Prog.trace_perform_bind_iff.mp h₄ with
    ⟨rfl, rfl⟩ | ⟨w₂, _, w₂', tr₅, rfl, h₅⟩ | ⟨w₂, e, w₂', rfl, rfl⟩
  · exact .inr (.inl ⟨w₁, w₁', rfl, rfl⟩)
  swap
  · -- nobody sees `notify_all` fail
    obtain ⟨v, hv⟩ := (hstep ⟨w₂, .notifyAll msg.channelid, .error e, w₂'⟩
      (by simp)).ok_of_not_store rfl
    cases hv
  refine .inr (.inr ?_)
  rcases Prog.trace_act_iff.mp h₅ with ⟨rfl, rfl⟩ | ⟨w₃, r, w₃', tr₆, rfl, h₆⟩
  · exact .inl ⟨w₁, w₁', w₂, w₂', rfl, rfl⟩
  refine .inr ⟨w₁, w₁', w₂, w₂', w₃, r, w₃', ?_⟩
  cases r with
  | ok v =>
    obtain ⟨rfl, rfl⟩ := Prog.trace_done_iff.mp h₆
    exact ⟨rfl, rfl⟩
  | error e =>
    obtain ⟨rfl, rfl⟩ := Prog.trace_raise_iff.mp h₆
    exact ⟨rfl, rfl⟩

/-- **Its marks.** Either both are there and it is finished; or it is not, and at most the first
mark is there, in which case it is still under way unless its insert has failed. -/
theorem marks_sendOne {msg : WrongthinkMessage} {tr : List (Action b)} {p' : Routine Unit}
    (hstep : ∀ e ∈ tr, Op.Step e.op e.before e.result e.after) (h : (sendOne msg).Trace tr p') :
    (p' = .done () ∧ marks tr = sendMarks msg) ∨
      (p' ≠ .done () ∧ (marks tr = [] ∨ ((p'.outcome = none ∨ LostInsert tr) ∧
        marks tr = [.append msg.channelid msg]))) := by
  obtain ⟨tr₀, tr₁, rfl, hquiet, hcases⟩ := trace_sendOne hstep h
  have hmarks : marks tr₀ = [] := marks_eq_nil fun e he ↦ (hquiet e he).2
  rw [marks_append, hmarks, List.nil_append]
  rcases hcases with ⟨rfl, hne⟩ | ⟨w₁, w₁', rfl, hnone⟩ | ⟨w₁, w₁', w₂, w₂', rfl, hnone⟩ |
    ⟨w₁, w₁', w₂, w₂', w₃, r, w₃', rfl, hout⟩
  · exact .inr ⟨hne, .inl rfl⟩
  · exact .inr ⟨Prog.ne_done_of_outcome hnone (), .inr ⟨.inl hnone, rfl⟩⟩
  · exact .inr ⟨Prog.ne_done_of_outcome hnone (), .inr ⟨.inl hnone, rfl⟩⟩
  cases r with
  | ok v => exact .inl ⟨Prog.eq_done_of_outcome hout, rfl⟩
  | error e =>
    refine .inr ⟨?_, .inr ⟨.inr ?_, rfl⟩⟩
    · rintro rfl
      cases hout
    · exact ⟨⟨w₃, .sql (.insertMessage msg.userid msg.channelid msg.threadid msg.threadchild
        msg.text), .error e, w₃'⟩, by simp, rfl, rfl⟩

/-! ## The whole stream -/

/-- **The loop.** -/
theorem marks_sendLoop {ms : List WrongthinkMessage} {tr : List (Action b)}
    {p' : Routine (Status × Unit)}
    (hstep : ∀ e ∈ tr, Op.Step e.op e.before e.result e.after) (h : (sendLoop ms).Trace tr p') :
    ∃ ms₁ ms₂, ms = ms₁ ++ ms₂ ∧ (p' = .done (Status.OK, ()) ↔ ms₂ = []) ∧
      (marks tr = ms₁.flatMap sendMarks ∨ ((p'.outcome = none ∨ LostInsert tr) ∧
        ∃ m ∈ ms₂.head?, marks tr = ms₁.flatMap sendMarks ++ [.append m.channelid m])) := by
  induction ms generalizing tr with
  | nil =>
    obtain ⟨rfl, rfl⟩ := Prog.trace_done_iff.mp h
    exact ⟨[], [], rfl, by simp, .inl rfl⟩
  | cons m ms ih =>
    rw [sendLoop_cons] at h
    rcases h.of_bind with ⟨q, hq, hne, rfl⟩ | ⟨⟨⟩, tr₁, tr₂, rfl, h₁, h₂⟩
    · -- the loop has come no further than its first message
      obtain ⟨hq', _⟩ | ⟨_, hmarks⟩ := marks_sendOne hstep hq
      · exact absurd hq' (hne ())
      have hnot : (q >>= fun _ ↦ sendLoop ms) ≠ .done (Status.OK, ()) :=
        Prog.bind_ne_done hne _ _
      refine ⟨[], m :: ms, rfl, by simp [hnot], ?_⟩
      rcases hmarks with hmarks | ⟨hover, hmarks⟩
      · exact .inl hmarks
      · exact .inr ⟨hover.imp_left fun hq ↦ Prog.outcome_bind_eq_none hq _, m, rfl, hmarks⟩
    · obtain ⟨_, hmarks⟩ | ⟨hne, _⟩ := marks_sendOne
        (fun e he ↦ hstep e (List.mem_append_left _ he)) h₁
      swap
      · exact absurd rfl hne
      obtain ⟨ms₁, ms₂, rfl, hdone, hrest⟩ :=
        ih (fun e he ↦ hstep e (List.mem_append_right _ he)) h₂
      refine ⟨m :: ms₁, ms₂, rfl, hdone, ?_⟩
      rw [marks_append, hmarks, List.flatMap_cons]
      rcases hrest with hrest | ⟨hover, m', hm', hrest⟩
      · exact .inl (by rw [hrest])
      · refine .inr ⟨hover.imp_right fun ⟨e, he, hlost⟩ ↦ ?_, m', hm', ?_⟩
        · rw [hrest, List.append_assoc]
        · exact ⟨e, List.mem_append_right _ he, hlost⟩

/-- **A send.** Its marks are those of the messages `ms₁`, with which it is finished, and perhaps
the first mark of the next; it answers `OK` when there is no next one. -/
theorem marks_send {r : Request} (hr : r.target = some .message) {tr : List (Action b)}
    {p' : Routine Reply} (hstep : ∀ e ∈ tr, Op.Step e.op e.before e.result e.after)
    (h : r.handle.Trace tr p') :
    ∃ ms₁ ms₂, r.sends = ms₁ ++ ms₂ ∧
      (∀ reply, p' = .done reply → (reply.1 = Status.OK → ms₂ = []) ∧
        (r.sends ≠ [] → ms₂ = [] → reply.1 = Status.OK)) ∧
      (marks tr = ms₁.flatMap sendMarks ∨ ((p'.outcome = none ∨ LostInsert tr) ∧
        ∃ m ∈ ms₂.head?, marks tr = ms₁.flatMap sendMarks ++ [.append m.channelid m])) := by
  rw [Request.handle_of_target_message hr] at h
  obtain ⟨q, hq, rfl⟩ := trace_caught h
  rcases Prog.trace_perform_bind_iff.mp hq with
    ⟨rfl, rfl⟩ | ⟨w, v, w', tr', rfl, hloop⟩ | ⟨w, e, w', rfl, rfl⟩
  · exact ⟨[], r.sends, rfl, nofun, .inl rfl⟩
  · obtain ⟨ms₁, ms₂, hms, hdone, hmarks⟩ :=
      marks_sendLoop (fun e he ↦ hstep e (List.mem_cons_of_mem _ he)) hloop
    have hsession : marks (⟨w, .session, .ok v, w'⟩ :: tr') = marks tr' := rfl
    refine ⟨ms₁, ms₂, hms, fun reply hreply ↦ ?_, ?_⟩
    · rcases caught_eq_done hreply with ⟨x, rfl, rfl⟩ | ⟨⟨e, rfl⟩, rfl⟩
      · refine ⟨fun hok ↦ hdone.mp ?_, fun _ hnil ↦ ?_⟩
        · rw [← hok]
        · rw [Prog.done.inj (hdone.mpr hnil)]
      · exact ⟨nofun, fun _ hnil ↦ nomatch hdone.mpr hnil⟩
    · rw [hsession]
      refine hmarks.imp_right fun ⟨hover, hm⟩ ↦ ⟨hover.imp outcome_caught_eq_none ?_, hm⟩
      exact fun ⟨e, he, hlost⟩ ↦ ⟨e, List.mem_cons_of_mem _ he, hlost⟩
  · -- there was no session to be had
    refine ⟨[], r.sends, rfl, fun reply hreply ↦ ?_, .inl rfl⟩
    rw [caught_raise, Prog.done.injEq] at hreply
    rw [← hreply]
    exact ⟨nofun, fun hne hnil ↦ absurd hnil hne⟩

/-! ## The table -/

namespace Mark

/-- The values of an insert. -/
def inserted? : Mark → Option Bound
  | insert v => some v
  | append _ _ => none

/-- The message of an append. -/
def appended? : Mark → Option WrongthinkMessage
  | append _ msg => some msg
  | insert _ => none

/-- The mark is on the channel `ch`. -/
def on (ch : ℤ) : Mark → Bool
  | append id _ => id = ch
  | insert v => v.channel = ch

end Mark

theorem inserted_flatMap_sendMarks (ms : List WrongthinkMessage) :
    (ms.flatMap sendMarks).filterMap Mark.inserted? = ms.map WrongthinkMessage.bound := by
  induction ms with
  | nil => rfl
  | cons m ms ih =>
    rw [List.flatMap_cons, List.filterMap_append, ih]
    rfl

theorem appended_flatMap_sendMarks (ms : List WrongthinkMessage) :
    (ms.flatMap sendMarks).filterMap Mark.appended? = ms := by
  induction ms with
  | nil => rfl
  | cons m ms ih =>
    rw [List.flatMap_cons, List.filterMap_append, ih]
    rfl

theorem filter_on_flatMap_sendMarks (ch : ℤ) (ms : List WrongthinkMessage) :
    (ms.flatMap sendMarks).filter (Mark.on ch) =
      (ms.filter (·.channelid = ch)).flatMap sendMarks := by
  induction ms with
  | nil => rfl
  | cons m ms ih =>
    rw [List.flatMap_cons, List.filter_append, ih]
    by_cases hm : m.channelid = ch
    · rw [List.filter_cons_of_pos (by simpa using hm), List.flatMap_cons]
      simp [sendMarks, Mark.on, WrongthinkMessage.bound, hm]
    · rw [List.filter_cons_of_neg (by simpa using hm)]
      simp [sendMarks, Mark.on, WrongthinkMessage.bound, hm]

theorem Op.inserted_mark_eq_nil {o : Op} (ho : o.target ≠ some .message)
    (r : Except Exn o.Result) : (o.mark r).toList.filterMap Mark.inserted? = [] := by
  cases o with
  | push id msg => cases r <;> rfl
  | sql q =>
    cases q with
    | insertMessage user_id channel thread_id thread_child mtext => exact absurd rfl ho
    | _ => rfl
  | _ => rfl

theorem Op.Step.message_rows {o : Op} {w w' : World b} {r : Except Exn o.Result}
    (h : Op.Step o w r w') : ∃ new, w'.db.message.rows = w.db.message.rows ++ new ∧
      new.map MessageRow.bound = (o.mark r).toList.filterMap Mark.inserted? := by
  by_cases ho : o.target = some .message
  swap
  · have hrows : w'.db.message.rows = w.db.message.rows := h.frame .message ho
    exact ⟨[], by rw [hrows, List.append_nil], by rw [o.inserted_mark_eq_nil ho]; rfl⟩
  obtain ⟨user_id, channel, thread_id, thread_child, mtext, rfl⟩ := Op.eq_of_target_message ho
  obtain ⟨now, gaps, heffect⟩ := h.effect
  generalize w'.db.toTables = t' at *
  cases heffect with
  | same _ _ hsame =>
    obtain ⟨e, rfl⟩ := hsame.resolve_left nofun
    exact ⟨[], by rw [List.append_nil]; rfl, rfl⟩
  | insertMessage _ _ _ _ _ child mdate hchild _ _ =>
    refine ⟨[_], Relational.Serial.rows_push _ _ rfl, ?_⟩
    rw [List.map_singleton, MessageRow.bound, eq_of_boolean hchild]
    rfl

/-- **The table is the log of the inserts.** -/
theorem rows_of_run {w w' : World b} {tr : List (Action b)} (h : Run Op.Step w tr w') :
    ∃ new, w'.db.message.rows = w.db.message.rows ++ new ∧
      new.map MessageRow.bound = (marks tr).filterMap Mark.inserted? := by
  induction h with
  | nil w => exact ⟨[], by simp, rfl⟩
  | @cons e tr w' he _ ih =>
    obtain ⟨new₁, hrows₁, hbound₁⟩ := he.message_rows
    obtain ⟨new₂, hrows₂, hbound₂⟩ := ih
    refine ⟨new₁ ++ new₂, by rw [hrows₂, hrows₁, List.append_assoc], ?_⟩
    rw [List.map_append, hbound₁, hbound₂, ← List.singleton_append, marks_append,
      List.filterMap_append]
    congr 2

end Wrongthink
