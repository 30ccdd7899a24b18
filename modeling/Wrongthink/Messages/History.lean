import Wrongthink.Messages.Sends
import Wrongthink.Service.Listing

/-!
# Message history

What `GetWrongthinkMessages` writes is what the sends have stored, on Postgres. The read path is an
inner join with `users`, which would drop a message whose user is missing; the `references` clause
of the table is what makes it lossless, and it is carried by every `Database .postgres`.

The stored messages of a request are the first of those it sends, as many as it has inserted. For a
unary send that is the message if the answer is `OK` and nothing otherwise, and for a stream the
messages before the first that failed.
-/

namespace Wrongthink

open Concurrent Relational

variable {b : Backend}

/-! ## Reading -/

/-- How a joined row is shown. -/
def shown (channelid : ℤ) (x : MessageRow × UserRow) : WrongthinkMessage :=
  ⟨x.2.uname, "", channelid, x.1.user_id, x.1.thread_id, x.1.thread_child, x.1.edited, x.1.mtext,
    wrap32 x.1.mdate, x.1.msg_id⟩

namespace World

/-- The rows of a channel, each with its user. -/
def joined (w : World b) (channelid : ℤ) : List (MessageRow × UserRow) :=
  Serial.join (w.db.message.rows.filter (·.channel = channelid)) w.db.users (·.user_id)

/-- The messages of a channel, as they would be listed. -/
def history (w : World b) (channelid : ℤ) : List WrongthinkMessage :=
  (w.joined channelid).map (shown channelid)

theorem mem_joined {w : World b} {c : ℤ} {x : MessageRow × UserRow} :
    x ∈ w.joined c ↔
      (x.1 ∈ w.db.message.rows ∧ x.1.channel = c) ∧ x.2 ∈ w.db.users.rows ∧
        x.2.user_id = x.1.user_id := by
  rw [joined, Serial.mem_join, List.mem_filter, decide_eq_true_eq]

theorem history_congr {w w' : World b} {c : ℤ}
    (hmessage : w'.db.message.rows = w.db.message.rows)
    (husers : w'.db.users.rows = w.db.users.rows) : w'.history c = w.history c := by
  rw [history, history, joined, joined, Serial.join, Serial.join, hmessage, husers]

end World

namespace WrongthinkServiceImpl

/-- The two columns called `user_id` are equal, so it does not matter which of them the name finds.
-/
theorem decodeMessage_columns (channelid : ℤ) {m : MessageRow} {u : UserRow}
    (h : u.user_id = m.user_id) :
    decodeMessage channelid (m.columns ++ u.columns) = .ok (shown channelid (m, u)) := by
  simp [decodeMessage, SqlRow.getStringNamed, SqlRow.getIntNamed, SqlRow.column, SqlValue.toInt,
    SqlValue.toString, MessageRow.columns, UserRow.columns, shown, h, sqlBool, bind, Except.bind,
    pure, Except.pure]

end WrongthinkServiceImpl

open WrongthinkServiceImpl

theorem Op.Step.selectChannelMessages_eq {c : ℤ} {rs : List SqlRow} {w w' : World b}
    (h : Op.Step (.sql (.selectChannelMessages c)) w (.ok rs) w') :
    writeRows (decodeMessage c) rs = (Status.OK, w.history c) := by
  obtain ⟨d, hr, _⟩ := h.ok
  have hrs : rs = (w.joined c).map fun x ↦ x.1.columns ++ x.2.columns := Except.ok.inj hr
  rw [hrs]
  exact writeRows_map fun x hx ↦ decodeMessage_columns c (World.mem_joined.mp hx).2.2

/-- A listing of a channel whose calls reach the database. -/
structure Served.Lists (s : Served b) (c : ℤ) : Prop where
  request : s.request = .GetWrongthinkMessages c
  linked : ∀ e ∈ s.actions, e.result ≠ .error .connectionFailure

theorem Served.Handled.reply_getMessages {s : Served b} {w w' : World b} {c : ℤ}
    (h : s.Handled w w') (hs : s.Lists c) : s.reply = (Status.OK, .messages (w.history c)) := by
  obtain ⟨w₁, rs, hrows, hquery, hreply⟩ := h.reply_of_query (q := .selectChannelMessages c)
    hs.linked (fun _ ↦ ⟨_, rfl⟩) (by rw [hs.request]; rfl)
  rw [hreply, hquery.selectChannelMessages_eq, World.history_congr (hrows .message) (hrows .users)]

theorem exists_listing (w : World b) (c : ℤ) :
    ∃ (s : Served b) (w' : World b), s.Handled w w' ∧ s.Lists c := by
  refine ⟨⟨.GetWrongthinkMessages c, _, _⟩, _, Served.handled_of_exec rfl, rfl, ?_⟩
  exact List.forall_mem_cons.mpr ⟨nofun, List.forall_mem_cons.mpr ⟨nofun, List.forall_mem_nil _⟩⟩

/-! ## Writing -/

/-- The messages of a request that have been inserted. -/
def Served.stored (s : Served b) : List WrongthinkMessage :=
  s.request.sends.take ((marks s.actions).filterMap Mark.inserted?).length

theorem inserted_eq_nil {r : Request} (hr : r.target ≠ some .message) {tr : List (Action b)}
    {p' : Routine Reply} (h : r.handle.Trace tr p') :
    (marks tr).filterMap Mark.inserted? = [] := by
  rw [List.filterMap_eq_nil_iff]
  intro k hk
  obtain ⟨e, he, hmark⟩ := List.mem_filterMap.mp hk
  have htarget : e.op.target ≠ some .message := ((r.handle_only.trace h).1 e he).target_ne hr
  have hnil := e.op.inserted_mark_eq_nil htarget e.result
  rw [hmark] at hnil
  simpa using hnil

/-- What a request inserts is what it stores; and a send answers `OK` exactly if that is all. -/
theorem Served.Handled.stored {s : Served b} {w w' : World b} (h : s.Handled w w') :
    (marks s.actions).filterMap Mark.inserted? = s.stored.map WrongthinkMessage.bound ∧
      (s.request.sends ≠ [] → (s.reply.1 = Status.OK ↔ s.stored = s.request.sends)) := by
  by_cases hr : s.request.target = some .message
  · obtain ⟨ms₁, ms₂, hms, hreply, hmarks⟩ := marks_send hr (fun e he ↦ h.run.sem_of_mem he) h.trace
    have hinserted : (marks s.actions).filterMap Mark.inserted? =
        ms₁.map WrongthinkMessage.bound := by
      rcases hmarks with hmarks | ⟨_, m, _, hmarks⟩
      · rw [hmarks, inserted_flatMap_sendMarks]
      · rw [hmarks, List.filterMap_append, inserted_flatMap_sendMarks]
        simp [Mark.inserted?]
    have hstored : s.stored = ms₁ := by
      rw [Served.stored, hinserted, hms, List.length_map, List.take_left']
      rfl
    obtain ⟨hok, hall⟩ := hreply s.reply rfl
    refine ⟨by rw [hinserted, hstored], fun hne ↦ ?_⟩
    rw [hstored, hms, List.self_eq_append_right]
    exact ⟨hok, hall hne⟩
  · have hsends : s.request.sends = [] := by
      cases hs : s.request with
      | SendWrongthinkMessageWeb msg | SendWrongthinkMessage reader =>
        rw [hs] at hr
        exact absurd rfl hr
      | _ => rfl
    rw [Served.stored, hsends, inserted_eq_nil hr h.trace]
    exact ⟨rfl, fun hne ↦ absurd rfl hne⟩

theorem Serve.message_rows {w w' : World b} {ss : List (Served b)} (h : Serve w ss w') :
    ∃ new, w'.db.message.rows = w.db.message.rows ++ new ∧
      new.map MessageRow.bound = (ss.flatMap Served.stored).map WrongthinkMessage.bound := by
  induction h with
  | nil w => exact ⟨[], by simp, rfl⟩
  | cons hs _ ih =>
    obtain ⟨new₁, hrows₁, hbound₁⟩ := rows_of_run hs.run
    obtain ⟨new₂, hrows₂, hbound₂⟩ := ih
    refine ⟨new₁ ++ new₂, by rw [hrows₂, hrows₁, List.append_assoc], ?_⟩
    rw [List.map_append, hbound₁, hbound₂, hs.stored.1, List.flatMap_cons, List.map_append]

/-! ## The history on Postgres -/

namespace World

section Postgres

variable {w w' : World .postgres} (c : ℤ)

private theorem exists_user (w : World .postgres) :
    ∀ m ∈ w.db.message.rows.filter (·.channel = c), ∃ u ∈ w.db.users.rows, u.user_id = m.user_id :=
  fun m hm ↦ (w.db.valid.references rfl).message_user m (List.mem_filter.mp hm).1

theorem joined_map_fst (w : World .postgres) :
    (w.joined c).map Prod.fst = w.db.message.rows.filter (·.channel = c) :=
  Serial.join_map_fst (exists_user c w)

theorem history_prefix (h : w.Grows w') : w.history c <+: w'.history c := by
  obtain ⟨new, hnew⟩ := h.db.message
  have hjoin : Serial.join (w.db.message.rows.filter (·.channel = c)) w'.db.users (·.user_id) =
      w.joined c := Serial.join_of_prefix h.db.users (exists_user c w)
  refine List.IsPrefix.map _ ?_
  rw [joined.eq_def w' c, ← hnew, List.filter_append, Serial.join_append, hjoin]
  exact List.prefix_append _ _

theorem history_pairwise (w : World .postgres) :
    (w.history c).Pairwise fun x y ↦ x.messageid < y.messageid := by
  have hsorted : (w.db.message.rows.filter (·.channel = c)).Pairwise fun r s ↦
      r.msg_id < s.msg_id := w.db.message.sorted.sublist List.filter_sublist
  rw [← joined_map_fst c w, List.pairwise_map] at hsorted
  rw [history, List.pairwise_map]
  exact hsorted

/-- `x` shows the message `m`, under the registered name of its user. -/
structure Shows (w : World b) (m x : WrongthinkMessage) : Prop where
  channelid : x.channelid = m.channelid
  userid : x.userid = m.userid
  threadid : x.threadid = m.threadid
  threadchild : x.threadchild = m.threadchild
  text : x.text = m.text
  uname : ∃ u ∈ w.db.users.rows, u.user_id = m.userid ∧ u.uname = x.uname

theorem shows_shown {w : World b} {m : WrongthinkMessage} {x : MessageRow × UserRow}
    (hx : x ∈ w.joined c) (hbound : x.1.bound = m.bound) : w.Shows m (shown c x) := by
  obtain ⟨⟨_, hchannel⟩, hu, huser⟩ := mem_joined.mp hx
  rw [MessageRow.bound, WrongthinkMessage.bound, Bound.mk.injEq] at hbound
  obtain ⟨huserid, hchannelid, hthreadid, hthreadchild, htext⟩ := hbound
  refine ⟨hchannel.symm.trans hchannelid, huserid, hthreadid, hthreadchild, htext, ?_⟩
  exact ⟨x.2, hu, huser.trans huserid, rfl⟩

/-- The history shows exactly the stored messages of the channel, each once and in their order. -/
theorem history_shows {sent : List WrongthinkMessage}
    (hsent : w.db.message.rows.map MessageRow.bound = sent.map WrongthinkMessage.bound) :
    List.Forall₂ w.Shows (sent.filter (·.channelid = c)) (w.history c) := by
  have hbound : (w.joined c).map (fun x ↦ x.1.bound) =
      (sent.filter (·.channelid = c)).map WrongthinkMessage.bound := by
    calc (w.joined c).map (fun x ↦ x.1.bound)
        = ((w.joined c).map Prod.fst).map MessageRow.bound := by rw [List.map_map]; rfl
      _ = (w.db.message.rows.filter (·.channel = c)).map MessageRow.bound := by
          rw [joined_map_fst]
      _ = (w.db.message.rows.map MessageRow.bound).filter (·.channel = c) := by
          rw [List.filter_map]
          rfl
      _ = (sent.map WrongthinkMessage.bound).filter (·.channel = c) := by rw [hsent]
      _ = (sent.filter (·.channelid = c)).map WrongthinkMessage.bound := by
          rw [List.filter_map]
          rfl
  rw [history, List.forall₂_map_right_iff]
  exact (forall₂_of_map_eq hbound).flip.imp fun m x hx ↦ shows_shown c hx.1 hx.2

end Postgres

end World

/-- **The round trip.** On Postgres, after any history of requests on a new server, a listing of the
channel `c` shows the stored messages of `c`: each once, in the order of their inserts, with
increasing ids. What a send stores is all it sends exactly if it answers `OK`. And every later
listing begins with this one. -/
theorem history_roundtrip {now : ℤ} {ss : List (Served .postgres)} {s : Served .postgres}
    {w w' : World .postgres} {c : ℤ} (h : Serve (World.start .postgres now) ss w)
    (hs : s.Handled w w') (hlists : s.Lists c) :
    (∀ t ∈ ss, t.request.sends ≠ [] → (t.reply.1 = Status.OK ↔ t.stored = t.request.sends)) ∧
      ∃ out, s.reply = (Status.OK, .messages out) ∧
        List.Forall₂ w.Shows ((ss.flatMap Served.stored).filter (·.channelid = c)) out ∧
        (out.Pairwise fun x y ↦ x.messageid < y.messageid) ∧
        ∀ (ss' : List (Served .postgres)) (s' : Served .postgres) (w₁ w₁' : World .postgres),
          Serve w' ss' w₁ → s'.Handled w₁ w₁' → s'.Lists c →
            ∃ out', s'.reply = (Status.OK, .messages out') ∧ out <+: out' := by
  refine ⟨fun t ht ↦ ?_, w.history c, hs.reply_getMessages hlists, ?_, w.history_pairwise c,
    fun ss' s' w₁ w₁' hserve hs' hlists' ↦ ?_⟩
  · obtain ⟨v, v', hv⟩ := h.handled_of_mem ht
    exact hv.stored.2
  · obtain ⟨new, hrows, hbound⟩ := h.message_rows
    refine World.history_shows c ?_
    rw [hrows]
    exact hbound
  · refine ⟨w₁.history c, hs'.reply_getMessages hlists', ?_⟩
    exact World.history_prefix c (trans_of World.Grows hs.grows hserve.grows)

/-- A message that arrives, one to a channel that does not exist, and a stream that breaks off at a
message that Postgres refuses. -/
private def talk : List (Served .postgres) × World .postgres :=
  let msg : WrongthinkMessage := ⟨"ann", "", 1, 1, 0, 0, false, "hello", 0, 0⟩
  serve (World.start .postgres 0) [.CreateUser ⟨"ann", "pw", false⟩,
    .CreateWrongthinkCommunity ⟨"all", 1, true⟩, .CreateWrongthinkChannel ⟨"main", 1, false, 1⟩,
    .SendWrongthinkMessageWeb msg, .SendWrongthinkMessageWeb { msg with channelid := 9 },
    .SendWrongthinkMessage [msg, { msg with threadchild := 5 }, msg]]

theorem history_roundtrip_talk :
    ∃ (s : Served .postgres) (out : List WrongthinkMessage),
      s.reply = (Status.OK, .messages out) ∧
        List.Forall₂ talk.2.Shows
          ((talk.1.flatMap Served.stored).filter (·.channelid = 1)) out := by
  obtain ⟨s, w', hs, hlists⟩ := exists_listing talk.2 1
  obtain ⟨_, out, hreply, hshows, _⟩ := history_roundtrip (serve_sound _ _) hs hlists
  exact ⟨s, out, hreply, hshows⟩

end Wrongthink
