import Wrongthink.Concurrent.Paired
import Wrongthink.Messages.Sends
import Wrongthink.Service.Serve

/-!
# A stream, and its messages one by one

A client may send its messages in one stream, or each in a request of its own, giving up at the
first that is not answered `OK`. With nobody else there, and the database reachable, both come to
the same (`sends_agree`): the same rows but for their dates, the same channels, the same status.

The stream goes through one prepared statement, whose variables each turn of the loop sets anew
(`preparedLoop`); since it sets all of them, nothing of an earlier message is left in a later one.

## The clock

Two runs happen at two times. Postgres takes a date only if it fits an `int`, so the runs are
compared where, message by message, either both dates fit or neither does (`SameEra`); that is so
whenever both runs end, or both begin, before the column's range does.
-/

namespace Wrongthink

open Concurrent WrongthinkServiceImpl

variable {b : Backend}

/-! ## The prepared statement -/

/-- `st.execute(true)`, with the values that the bound variables have by then. -/
def Bound.execute (v : Bound) : Routine Unit :=
  sql (.insertMessage v.user_id v.channel v.thread_id v.thread_child v.mtext)

/-- The loop of `SendWrongthinkMessageImpl`, with its variables. -/
def preparedLoop : Bound → List WrongthinkMessage → Routine (Status × Unit)
  | _, [] => return (Status.OK, ())
  | v, msg :: reader => do
    let v := { v with channel := msg.channelid }
    let v := { v with user_id := msg.userid }
    let v := { v with thread_id := msg.threadid }
    let v := { v with thread_child := msg.threadchild }
    let v := { v with mtext := msg.text }
    let found ← checkForChannel msg.channelid
    if !found then return (Status.INVALID_ARGUMENT, ())
    else
      appendMessage msg.channelid msg
      v.execute
      preparedLoop v reader

/-- Nothing is left in the variables from one turn to the next. -/
theorem preparedLoop_eq (v : Bound) (reader : List WrongthinkMessage) :
    preparedLoop v reader = sendLoop reader := by
  induction reader generalizing v with
  | nil => rfl
  | cons msg reader ih =>
    rw [preparedLoop, sendLoop]
    simp only [ih]
    rfl

/-! ## Undisturbed runs -/

/-- The action runs, and nothing but the clock has moved before it. -/
def Op.Undisturbed : Semantics Op Op.Result Exn (World b) :=
  fun o w r w' ↦ ∃ t, r = (o.exec { w with now := t }).1 ∧ w' = (o.exec { w with now := t }).2

theorem Op.Undisturbed.step {o : Op} {w w' : World b} {r : Except Exn o.Result}
    (h : Op.Undisturbed o w r w') : Op.Step o w r w' := by
  obtain ⟨t, rfl, rfl⟩ := h
  exact Op.step_exec_at t o w

/-- The request is handled with the database reachable and nobody else there. -/
structure Served.Undisturbed (s : Served b) (w w' : World b) : Prop where
  trace : s.request.handle.Trace s.actions (.done s.reply)
  run : Run Op.Undisturbed w s.actions w'

/-- The messages are sent one by one, up to the first that is not answered `OK`; `status` is the
last answer. -/
inductive OneByOne :
    World b → List WrongthinkMessage → List (Served b) → Status → World b → Prop where
  | nil (w) : OneByOne w [] [] Status.OK w
  | next {msg ms s ss status w w₁ w'} (hs : s.Undisturbed w w₁)
      (hrequest : s.request = .SendWrongthinkMessageWeb msg) (hok : s.reply.1 = Status.OK)
      (h : OneByOne w₁ ms ss status w') : OneByOne w (msg :: ms) (s :: ss) status w'
  | stop {msg ms s w w'} (hs : s.Undisturbed w w')
      (hrequest : s.request = .SendWrongthinkMessageWeb msg) (hfail : s.reply.1 ≠ Status.OK) :
      OneByOne w (msg :: ms) [s] s.reply.1 w'

/-- The times at which some actions insert a message. -/
def dates (tr : List (Action b)) : List ℤ :=
  tr.filterMap fun e ↦ if e.op.target = some .message then some e.after.now else none

/-- Of two dates in the same place, the column takes both or neither. -/
def SameEra (b : Backend) (l l' : List ℤ) : Prop :=
  ∀ x ∈ l.zip l', (int4 b x.1).isOk = (int4 b x.2).isOk

/-! ## Worlds that differ in dates -/

/-- A row but for its date. -/
def MessageRow.undated (r : MessageRow) : MessageRow := { r with mdate := 0 }

structure Tables.Alike (t t' : Tables) : Prop where
  users : t'.users = t.users
  banned_users : t'.banned_users = t.banned_users
  banned_ips : t'.banned_ips = t.banned_ips
  communities : t'.communities = t.communities
  channels : t'.channels = t.channels
  next : t'.message.next = t.message.next
  message : t'.message.rows.map MessageRow.undated = t.message.rows.map MessageRow.undated

structure World.Alike (w w' : World b) : Prop where
  db : w.db.toTables.Alike w'.db.toTables
  channelMap : w'.channelMap = w.channelMap

section

variable {w w' : World b} {id : ℤ}

theorem World.Alike.modify (h : w.Alike w')
    (f : SynchronizedChannel ThreadId → SynchronizedChannel ThreadId) :
    (w.modify id f).Alike (w'.modify id f) :=
  ⟨h.db, by rw [World.modify, World.modify, h.channelMap]⟩

theorem World.Alike.insertNew (h : w.Alike w') (ch : SynchronizedChannel ThreadId) :
    (w.insertNew id ch).Alike (w'.insertNew id ch) :=
  ⟨h.db, by rw [World.insertNew, World.insertNew, h.channelMap]⟩

theorem World.Alike.at (h : w.Alike w') (t t' : ℤ) :
    ({ w with now := t } : World b).Alike { w' with now := t' } := ⟨h.db, h.channelMap⟩

end

theorem World.Alike.refl (w : World b) : w.Alike w := ⟨⟨rfl, rfl, rfl, rfl, rfl, rfl, rfl⟩, rfl⟩

theorem error_eq_of_int4 {n n' : ℤ} {e e' : Exn} (h : int4 b n = .error e)
    (h' : int4 b n' = .error e') : e' = e := by
  cases b with
  | sqlite => cases h
  | postgres =>
    rw [int4] at h h'
    split at h
    · cases h
    split at h'
    · cases h'
    · rw [← Except.error.inj h, ← Except.error.inj h']

/-- Writes that are both refused, for one reason, or leave tables that are alike. -/
def AlikeWrites (x x' : Except Exn Tables) : Prop :=
  (∃ e, x = .error e ∧ x' = .error e) ∨ ∃ u u', x = .ok u ∧ x' = .ok u' ∧ u.Alike u'

theorem AlikeWrites.written {t t' : Tables} {x x' : Except Exn Tables} (h : AlikeWrites x x')
    (ht : t.Alike t') : (Statement.written t' x').1 = (Statement.written t x).1 ∧
      (Statement.written t x).2.Alike (Statement.written t' x').2 := by
  rcases h with ⟨e, rfl, rfl⟩ | ⟨u, u', rfl, rfl, hu⟩
  · exact ⟨rfl, ht⟩
  · exact ⟨rfl, hu⟩

theorem Tables.Alike.addMessage {t t' : Tables} (h : t.Alike t') {now now' : ℤ}
    (hera : (int4 b now).isOk = (int4 b now').isOk)
    (user_id channel thread_id thread_child : ℤ) (mtext : String) :
    AlikeWrites (Statement.addMessage b now t user_id channel thread_id thread_child mtext)
      (Statement.addMessage b now' t' user_id channel thread_id thread_child mtext) := by
  have husers : t'.users.has user_id = t.users.has user_id := by rw [h.users]
  have hchannels : t'.channels.has channel = t.channels.has channel := by rw [h.channels]
  rw [Statement.addMessage, Statement.addMessage, husers, hchannels]
  rcases boolean b thread_child with e | child
  · exact .inl ⟨e, rfl, rfl⟩
  rw [Statement.ok_bind, Statement.ok_bind]
  rcases hdate : int4 b now with e | mdate
  · rcases hdate' : int4 b now' with e' | mdate'
    · rw [error_eq_of_int4 hdate hdate']
      exact .inl ⟨e, rfl, rfl⟩
    · rw [hdate, hdate'] at hera
      cases hera
  rcases hdate' : int4 b now' with e' | mdate'
  · rw [hdate, hdate'] at hera
    cases hera
  rw [Statement.ok_bind, Statement.ok_bind]
  split
  · exact .inl ⟨.foreignKeyViolation, rfl, rfl⟩
  · refine .inr ⟨_, _, rfl, rfl, { h with next := ?_, message := ?_ }⟩
    · exact congrArg (· + 1) h.next
    · change List.map _ (_ ++ [_]) = List.map _ (_ ++ [_])
      rw [List.map_append, List.map_append, h.message, h.next]
      rfl

/-! ## One message -/

/-- The actions of a send. -/
def Op.OfSend : Op → Prop
  | sql (.selectChannelName _) | sql (.insertMessage _ _ _ _ _) => True
  | count _ | emplace _ _ | index _ | push _ _ | notifyAll _ => True
  | _ => False

theorem sendOne_ofSend (msg : WrongthinkMessage) : (sendOne msg).Only Op.OfSend := by
  have hcache : (cacheChannel msg.channelid).Only Op.OfSend :=
    cacheChannel_only trivial trivial fun _ ↦ trivial
  refine hcache.bind fun _ ↦ Prog.Only.bind ?_ fun _ ↦ (Prog.only_perform _ _).mpr trivial
  refine (Prog.only_perform_bind _ _ _).mpr ⟨trivial, fun _ ↦ ?_⟩
  exact (Prog.only_perform_bind _ _ _).mpr ⟨trivial, fun _ ↦ (Prog.only_perform _ _).mpr trivial⟩

/-- An undisturbed action, whose date fits its column or does not. -/
def Op.Dated (fits : Bool) : Semantics Op Op.Result Exn (World b) :=
  fun o w r w' ↦ Op.Undisturbed o w r w' ∧ (o.target = some .message → (int4 b w'.now).isOk = fits)

/-- **One action.** From worlds that are alike it answers the same, and leaves them alike. -/
theorem Op.Dated.alike {fits : Bool} {o : Op} (ho : o.OfSend) {w w' v v' : World b}
    {r r' : Except Exn o.Result} (h : w.Alike w') (hs : Op.Dated fits o w r v)
    (hs' : Op.Dated fits o w' r' v') : r' = r ∧ v.Alike v' := by
  obtain ⟨⟨t, rfl, rfl⟩, hfits⟩ := hs
  obtain ⟨⟨t', rfl, rfl⟩, hfits'⟩ := hs'
  have hat := h.at t t'
  cases o with
  | sql q =>
    cases q with
    | selectChannelName id =>
      refine ⟨congrArg Except.ok ?_, hat⟩
      rw [hat.db.channels]
    | insertMessage user_id channel thread_id thread_child mtext =>
      have hera : (int4 b t).isOk = (int4 b t').isOk := (hfits rfl).trans (hfits' rfl).symm
      have hinsert := h.db.addMessage hera user_id channel thread_id thread_child mtext
      have hwritten := hinsert.written h.db
      exact ⟨hwritten.1, hwritten.2, h.channelMap⟩
    | _ => exact ho.elim
  | count id =>
    refine ⟨congrArg Except.ok ?_, hat⟩
    rw [hat.channelMap]
  | emplace id name => exact ⟨rfl, hat.insertNew _⟩
  | index id => exact ⟨rfl, hat.insertNew _⟩
  | push id msg => exact ⟨rfl, hat.modify _⟩
  | notifyAll id => exact ⟨rfl, hat.modify _⟩
  | _ => exact ho.elim

theorem dates_append (tr tr' : List (Action b)) : dates (tr ++ tr') = dates tr ++ dates tr' :=
  List.filterMap_append

/-- A send inserts at most once, and once if it comes through. -/
theorem dates_sendOne {msg : WrongthinkMessage} {w v : World b} {tr : List (Action b)}
    {q : Routine Unit} (hrun : Run Op.Undisturbed w tr v) (h : (sendOne msg).Trace tr q) :
    dates tr = [] ∧ q ≠ .done () ∨ ∃ t, dates tr = [t] := by
  obtain ⟨tr₀, tr₁, rfl, hquiet, hcases⟩ :=
    trace_sendOne (fun e he ↦ (hrun.sem_of_mem he).step) h
  have hdates : dates tr₀ = [] := by
    refine List.filterMap_eq_nil_iff.mpr fun e he ↦ if_neg ?_
    rw [(hquiet e he).1]
    nofun
  rw [dates_append, hdates, List.nil_append]
  rcases hcases with ⟨rfl, hne⟩ | ⟨_, _, rfl, hnone⟩ | ⟨_, _, _, _, rfl, hnone⟩ |
    ⟨_, _, _, _, _, _, w₃', rfl, _⟩
  · exact .inl ⟨rfl, hne⟩
  · exact .inl ⟨rfl, Prog.ne_done_of_outcome hnone ()⟩
  · exact .inl ⟨rfl, Prog.ne_done_of_outcome hnone ()⟩
  · exact .inr ⟨w₃'.now, rfl⟩

/-- **One message.** From worlds that are alike, two sends of it come to the same. -/
theorem sendOne_alike {msg : WrongthinkMessage} {w w' v v' : World b} {tr tr' : List (Action b)}
    {q q' : Routine Unit} {x x' : Except Exn Unit} (h : w.Alike w')
    (hrun : Run Op.Undisturbed w tr v) (hrun' : Run Op.Undisturbed w' tr' v')
    (htr : (sendOne msg).Trace tr q) (htr' : (sendOne msg).Trace tr' q')
    (hq : q.outcome = some x) (hq' : q'.outcome = some x')
    (hera : SameEra b (dates tr) (dates tr')) : x.isOk = x'.isOk ∧ v.Alike v' := by
  -- at most one date in each run, so one answer says whether they fit
  obtain ⟨fits, hfits, hfits'⟩ : ∃ fits, (∀ t ∈ dates tr, (int4 b t).isOk = fits) ∧
      ∀ t ∈ dates tr', (int4 b t).isOk = fits := by
    rcases dates_sendOne hrun htr with ⟨hnone, _⟩ | ⟨t, ht⟩ <;>
      rcases dates_sendOne hrun' htr' with ⟨hnone', _⟩ | ⟨t', ht'⟩
    · exact ⟨true, by simp [hnone], by simp [hnone']⟩
    · exact ⟨(int4 b t').isOk, by simp [hnone], by simp [ht']⟩
    · exact ⟨(int4 b t).isOk, by simp [ht], by simp [hnone']⟩
    · rw [ht, ht'] at hera
      have heq := hera (t, t') (by simp)
      exact ⟨(int4 b t).isOk, by simp [ht], by simpa [ht'] using heq.symm⟩
  have hdated : ∀ {tr : List (Action b)}, (∀ t ∈ dates tr, (int4 b t).isOk = fits) →
      ∀ e ∈ tr, Op.Undisturbed e.op e.before e.result e.after →
        Op.Dated fits e.op e.before e.result e.after :=
    fun hall e he hs ↦ ⟨hs, fun htarget ↦ hall _ (List.mem_filterMap.mpr ⟨e, he, if_pos htarget⟩)⟩
  have hpaired : (sendOne msg).Paired (Op.Dated fits) (Op.Dated fits)
      (fun a v a' v' ↦ a' = a ∧ v.Alike v') World.Alike (sendOne msg) w w' :=
    Prog.Paired.self (fun o ho _ _ _ _ _ _ halike hs hs' ↦ Op.Dated.alike ho halike hs hs')
      (sendOne_ofSend msg) h
  rcases hpaired.ended htr htr' hq hq' (hrun.imp (hdated hfits)) (hrun'.imp (hdated hfits')) with
    ⟨a, a', rfl, rfl, _, halike⟩ | ⟨⟨e, e', rfl, rfl⟩, halike⟩
  · exact ⟨rfl, halike⟩
  · exact ⟨rfl, halike⟩

/-! ## The loop and the requests -/

/-- What the `catch` makes of the end of a send. -/
def answer : Except Exn (Status × Unit) → Status
  | .ok y => y.1
  | .error _ => Status.INTERNAL

/-- A loop that has ended has ended with its first message, or has dealt with it and gone on. -/
theorem sendLoop_ended {msg : WrongthinkMessage} {ms : List WrongthinkMessage}
    {tr : List (Action b)} {q : Routine (Status × Unit)} {x : Except Exn (Status × Unit)}
    (h : (sendLoop (msg :: ms)).Trace tr q) (hq : q.outcome = some x) :
    (∃ e, (sendOne msg).Trace tr (.raise e) ∧ x = .error e) ∨
      ∃ tr₁ tr₂, tr = tr₁ ++ tr₂ ∧ (sendOne msg).Trace tr₁ (.done ()) ∧
        (sendLoop ms).Trace tr₂ q := by
  rw [sendLoop_cons] at h
  rcases h.of_bind with ⟨q₀, hq₀, hne, rfl⟩ | ⟨⟨⟩, tr₁, tr₂, rfl, h₁, h₂⟩
  · cases q₀ with
    | done a => exact absurd rfl (hne a)
    | raise e => exact .inl ⟨e, hq₀, (Option.some.inj hq).symm⟩
    | act o k => cases hq
  · exact .inr ⟨tr₁, tr₂, rfl, h₁, h₂⟩

theorem Served.Undisturbed.loop {s : Served b} {w w' : World b} (hs : s.Undisturbed w w')
    (hr : s.request.target = some .message) :
    ∃ t tr q x, (sendLoop s.request.sends).Trace tr q ∧ q.outcome = some x ∧
      Run Op.Undisturbed { w with now := t } tr w' ∧ dates s.actions = dates tr ∧
      s.reply.1 = answer x := by
  obtain ⟨htrace, hrun⟩ := hs
  rw [Request.handle_of_target_message hr] at htrace
  obtain ⟨q, hq, hdone⟩ := trace_caught htrace
  have hended : ∃ x, q.outcome = some x ∧ s.reply.1 = answer x := by
    rcases caught_eq_done hdone.symm with ⟨x, rfl, hreply⟩ | ⟨⟨e, rfl⟩, hreply⟩
    · exact ⟨.ok x, rfl, by rw [hreply]; rfl⟩
    · exact ⟨.error e, rfl, by rw [hreply]; rfl⟩
  obtain ⟨x, hx, hreply⟩ := hended
  rcases Prog.trace_perform_bind_iff.mp hq with
    ⟨_, rfl⟩ | ⟨w₀, _, v, tr, hactions, hloop⟩ | ⟨w₀, e, v, hactions, _⟩
  · cases hx
  · rw [hactions] at hrun ⊢
    obtain ⟨rfl, ⟨t, _, hv⟩, hrun⟩ := run_cons_iff.mp hrun
    have hv' : v = { w₀ with now := t } := hv
    subst hv'
    exact ⟨t, tr, q, x, hloop, hx, hrun, rfl, hreply⟩
  · rw [hactions] at hrun
    obtain ⟨_, ⟨t, hfail, _⟩, _⟩ := run_cons_iff.mp hrun
    cases hfail

theorem Served.Undisturbed.one {s : Served b} {msg : WrongthinkMessage} {w w' : World b}
    (hs : s.Undisturbed w w') (hrequest : s.request = .SendWrongthinkMessageWeb msg) :
    ∃ t tr q x, (sendOne msg).Trace tr q ∧ q.outcome = some x ∧
      Run Op.Undisturbed { w with now := t } tr w' ∧ dates s.actions = dates tr ∧
      s.reply.1 = if x.isOk then Status.OK else Status.INTERNAL := by
  obtain ⟨t, tr, q, x, hloop, hx, hrun, hdates, hreply⟩ := hs.loop (by rw [hrequest]; rfl)
  rw [hrequest] at hloop
  rcases sendLoop_ended hloop hx with ⟨e, hone, rfl⟩ | ⟨tr₁, tr₂, rfl, hone, hrest⟩
  · exact ⟨t, tr, _, .error e, hone, rfl, hrun, hdates, hreply⟩
  · obtain ⟨rfl, rfl⟩ := Prog.trace_done_iff.mp hrest
    rw [List.append_nil] at hrun hdates
    obtain rfl := Option.some.inj hx
    exact ⟨t, tr₁, _, .ok (), hone, rfl, hrun, hdates, hreply⟩

theorem SameEra.mono {l₁ l₁' l l' : List ℤ} (h : SameEra b l l') (hl : l₁ <+: l)
    (hl' : l₁' <+: l') : SameEra b l₁ l₁' := by
  obtain ⟨m, rfl⟩ := hl
  obtain ⟨m', rfl⟩ := hl'
  induction l₁ generalizing l₁' with
  | nil => simp [SameEra]
  | cons t l₁ ih =>
    rcases l₁' with _ | ⟨t', l₁'⟩
    · simp [SameEra]
    · obtain ⟨hhead, htail⟩ := List.forall_mem_cons.mp h
      exact List.forall_mem_cons.mpr ⟨hhead, ih htail⟩

theorem SameEra.right {t t' : ℤ} {l l' : List ℤ} (h : SameEra b (t :: l) (t' :: l')) :
    SameEra b l l' := (List.forall_mem_cons.mp h).2

/-- **The stream.** From worlds that are alike, the loop and the requests one by one come to the
same. -/
theorem sendLoop_alike {ms : List WrongthinkMessage} {ss : List (Served b)} {status : Status}
    {w w' v v' : World b} {tr : List (Action b)} {q : Routine (Status × Unit)}
    {x : Except Exn (Status × Unit)} (h : w.Alike w') (hrun : Run Op.Undisturbed w tr v)
    (htr : (sendLoop ms).Trace tr q) (hq : q.outcome = some x)
    (hone : OneByOne w' ms ss status v')
    (hera : SameEra b (dates tr) (dates (ss.flatMap (·.actions)))) :
    v.Alike v' ∧ answer x = status := by
  induction hone generalizing w tr with
  | nil w' =>
    obtain ⟨rfl, rfl⟩ := Prog.trace_done_iff.mp htr
    obtain rfl := Option.some.inj hq
    rw [run_nil_iff.mp hrun]
    exact ⟨h, rfl⟩
  | @next msg ms s ss status w' w₁' v' hs hrequest hok hone ih =>
    obtain ⟨t', tr', q', x', htr', hq', hrun', hdates, hreply⟩ := hs.one hrequest
    have hstart : w.Alike { w' with now := t' } := h.at w.now t'
    have hx' : x'.isOk = true := by
      by_contra hfail
      rw [hok, if_neg hfail] at hreply
      cases hreply
    have hdone' : q' = .done () := by
      rcases x' with e | a
      · cases hx'
      · exact Prog.eq_done_of_outcome hq'
    rw [List.flatMap_cons, dates_append, hdates] at hera
    rcases sendLoop_ended htr hq with ⟨e, hraise, rfl⟩ | ⟨tr₁, tr₂, rfl, hdone, hrest⟩
    · -- the stream cannot fail at a message that is answered `OK`
      have hera' : SameEra b (dates tr) (dates tr') :=
        hera.mono (List.prefix_refl _) (List.prefix_append _ _)
      obtain ⟨hsame, _⟩ := sendOne_alike hstart hrun hrun' hraise htr' rfl hq' hera'
      rw [hx'] at hsame
      cases hsame
    · obtain ⟨u₁, hrun₁, hrun₂⟩ := run_append_iff.mp hrun
      rw [dates_append] at hera
      have hera' : SameEra b (dates tr₁) (dates tr') :=
        hera.mono (List.prefix_append _ _) (List.prefix_append _ _)
      obtain ⟨_, halike₁⟩ := sendOne_alike hstart hrun₁ hrun' hdone htr' rfl hq' hera'
      -- each has inserted once so far, so the later dates stand opposite each other
      obtain ⟨d, hd⟩ := (dates_sendOne hrun₁ hdone).resolve_left (by simp)
      obtain ⟨d', hd'⟩ := (dates_sendOne hrun' htr').resolve_left fun hnone ↦ hnone.2 hdone'
      rw [hd, hd'] at hera
      exact ih halike₁ hrun₂ hrest hera.right
  | @stop msg ms s w' v' hs hrequest hfail =>
    obtain ⟨t', tr', q', x', htr', hq', hrun', hdates, hreply⟩ := hs.one hrequest
    have hstart : w.Alike { w' with now := t' } := h.at w.now t'
    have hx' : x'.isOk = false := by
      by_contra hok
      rw [if_pos (by simpa using hok)] at hreply
      exact hfail hreply
    rw [List.flatMap_cons, List.flatMap_nil, List.append_nil, hdates] at hera
    rcases sendLoop_ended htr hq with ⟨e, hraise, rfl⟩ | ⟨tr₁, tr₂, rfl, hdone, hrest⟩
    · obtain ⟨_, halike₁⟩ := sendOne_alike hstart hrun hrun' hraise htr' rfl hq' hera
      rw [hreply, hx']
      exact ⟨halike₁, rfl⟩
    · obtain ⟨u₁, hrun₁, _⟩ := run_append_iff.mp hrun
      rw [dates_append] at hera
      have hera' : SameEra b (dates tr₁) (dates tr') :=
        hera.mono (List.prefix_append _ _) (List.prefix_refl _)
      obtain ⟨hsame, _⟩ := sendOne_alike hstart hrun₁ hrun' hdone htr' rfl hq' hera'
      rw [hx'] at hsame
      cases hsame

/-! ## Both ways can be gone -/

/-- Undisturbed, with the clock standing still. -/
def Op.Frozen : Semantics Op Op.Result Exn (World b) :=
  fun o w r w' ↦ Op.Undisturbed o w r w' ∧ w'.now = w.now

theorem Op.frozen_exec (o : Op) (w : World b) : Op.Frozen o w (o.exec w).1 (o.exec w).2 := by
  refine ⟨⟨w.now, rfl, rfl⟩, ?_⟩
  cases o <;> rfl

theorem exists_undisturbed {r : Request} (hr : r.target = some .message) (w : World b) :
    ∃ (s : Served b) (w' : World b), s.request = r ∧ s.Undisturbed w w' ∧ w'.now = w.now ∧
      ∀ t ∈ dates s.actions, t = w.now := by
  obtain ⟨hrun, p', htr, hout⟩ := Prog.exec_sound Op.frozen_exec r.handle w
  have hreply : ∃ reply, p' = .done reply := by
    rw [Request.handle_of_target_message hr] at htr
    obtain ⟨q, _, rfl⟩ := trace_caught htr
    cases q with
    | done x => exact ⟨_, rfl⟩
    | raise e => exact ⟨_, rfl⟩
    | act o k => cases hout
  obtain ⟨reply, rfl⟩ := hreply
  have hle := hrun.le (R := fun v v' : World b ↦ v'.now = v.now) fun _ _ hs ↦ hs.2
  refine ⟨⟨r, _, reply⟩, _, rfl, ⟨htr, hrun.imp fun _ _ hs ↦ hs.1⟩, hle.1, fun t ht ↦ ?_⟩
  obtain ⟨e, he, hdate⟩ := List.mem_filterMap.mp ht
  split at hdate
  · obtain ⟨hbefore, hafter, _⟩ := hle.2 e he
    rw [← Option.some.inj hdate, hafter, hbefore]
  · cases hdate

theorem exists_oneByOne (ms : List WrongthinkMessage) (w : World b) :
    ∃ ss status w', OneByOne w ms ss status w' ∧
      ∀ t ∈ dates (ss.flatMap (·.actions)), t = w.now := by
  induction ms generalizing w with
  | nil => exact ⟨[], Status.OK, w, .nil w, by simp [dates]⟩
  | cons msg ms ih =>
    obtain ⟨s, w₁, hrequest, hs, hnow, hdates⟩ :=
      exists_undisturbed (r := .SendWrongthinkMessageWeb msg) rfl w
    by_cases hok : s.reply.1 = Status.OK
    · obtain ⟨ss, status, w', hone, hrest⟩ := ih w₁
      refine ⟨s :: ss, status, w', .next hs hrequest hok hone, fun t ht ↦ ?_⟩
      rw [List.flatMap_cons, dates_append] at ht
      rcases List.mem_append.mp ht with ht | ht
      · exact hdates t ht
      · exact (hrest t ht).trans hnow
    · exact ⟨[s], s.reply.1, w₁, .stop hs hrequest hok, by simpa using hdates⟩

/-! ## Agreement -/

/-- The two ways of sending `ms` from `w` agree. -/
structure SendsAgree (w : World b) (ms : List WrongthinkMessage) : Prop where
  /-- Both can be gone, and at times that can be compared. -/
  possible : ∃ (s : Served b) (w₁ : World b) (ss : List (Served b)) (status : Status)
    (w₂ : World b),
    s.request = .SendWrongthinkMessage ms ∧ s.Undisturbed w w₁ ∧
    OneByOne w ms ss status w₂ ∧ SameEra b (dates s.actions) (dates (ss.flatMap (·.actions)))
  /-- However they are gone, they come to the same. -/
  same : ∀ (s : Served b) (w₁ : World b) (ss : List (Served b)) (status : Status) (w₂ : World b),
    s.request = .SendWrongthinkMessage ms → s.Undisturbed w w₁ →
    OneByOne w ms ss status w₂ →
    SameEra b (dates s.actions) (dates (ss.flatMap (·.actions))) →
      s.reply.1 = status ∧ w₁.Alike w₂

/-- **Streamed and unary sends agree.** -/
theorem sends_agree (w : World b) (ms : List WrongthinkMessage) : SendsAgree w ms where
  possible := by
    obtain ⟨s, w₁, hrequest, hs, _, hdates⟩ :=
      exists_undisturbed (r := .SendWrongthinkMessage ms) rfl w
    obtain ⟨ss, status, w₂, hone, hdates'⟩ := exists_oneByOne ms w
    refine ⟨s, w₁, ss, status, w₂, hrequest, hs, hone, fun x hx ↦ ?_⟩
    rw [hdates x.1 (List.of_mem_zip hx).1, hdates' x.2 (List.of_mem_zip hx).2]
  same := by
    intro s w₁ ss status w₂ hrequest hs hone hera
    obtain ⟨t, tr, q, x, hloop, hq, hrun, hdates, hreply⟩ := hs.loop (by rw [hrequest]; rfl)
    rw [hrequest] at hloop
    rw [hdates] at hera
    have hstart : ({ w with now := t } : World b).Alike w := (World.Alike.refl w).at t w.now
    obtain ⟨halike, hstatus⟩ := sendLoop_alike hstart hrun hloop hq hone hera
    exact ⟨hreply.trans hstatus, halike⟩

end Wrongthink
