import Wrongthink.Backends.Calls

/-!
# Postgres and SQLite

Two servers that are sent the same requests, one on Postgres and one on SQLite, answer alike as long
as Postgres has no reason of its own to refuse one (`World.Admits`): then each handler goes the same
way on both, and the servers stay mirrored (`replies_of_plain`). SQLite checks neither the width of
a `varchar` nor a reference, so any other create or send that names somebody who is not there, or a
name that is too long, tells the two apart (`exists_difference`).
-/

namespace Wrongthink

open Concurrent Relational WrongthinkServiceImpl

variable {b : Backend}

namespace Renaming

variable {ρ : Renaming} {w t v : World .postgres} {w' t' v' : World .sqlite} {r r' : Request}

/-! ## Handlers -/

/-- What the handlers are to end in. -/
abbrev Alike (ρ : Renaming) (r : Request) (reply : Reply) (t : World .postgres) (reply' : Reply)
    (t' : World .sqlite) : Prop :=
  ρ.Replies r reply reply' ∧ ρ.Mirrors t t'

theorem paired_caught {α : Type} {f f' : α → Response} {none none' : α}
    {p p' : Routine (Status × α)} (h : p.Paired (Fair v) (Fair v')
      (fun x t x' t' ↦ ρ.Alike r (x.1, f x.2) t (x'.1, f' x'.2) t') ρ.Mirrors p' w w') :
    (caught f none p).Paired (Fair v) (Fair v') (ρ.Alike r) ρ.Mirrors
      (caught f' none' p') w w' := by
  have hbody : (orInternal none p).Paired (Fair v) (Fair v')
      (fun x t x' t' ↦ ρ.Alike r (x.1, f x.2) t (x'.1, f' x'.2) t') ρ.Mirrors
      (orInternal none' p') w w' := by
    refine h.tryCatch fun e e' t t' hmirrors ↦ ?_
    exact ⟨⟨rfl, nofun⟩, hmirrors⟩
  exact hbody.bind fun x t x' t' halike ↦ halike

/-! ## Creations -/

theorem Asks.creates (h : ρ.Asks r r') {x : Creates} (hx : r.creates = some x) :
    ∃ x', r'.creates = some x' ∧ ρ.SameCall x.call x'.call ∧
      ∀ n id, ρ.Shows r (x.response n id) (x'.response n (ρ.key x.call.table id)) := by
  cases h with
  | @generateUser uuid uuid2 uuid' uuid2' h =>
    obtain rfl := Option.some.inj hx
    refine ⟨_, rfl, ?_, fun n id ↦ ⟨h, rfl, rfl⟩⟩
    dsimp only
    rw [h]
    exact .user _ _ _ _
  | createUser uname password admin =>
    obtain rfl := Option.some.inj hx
    exact ⟨_, rfl, .user _ _ _ _, fun n id ↦ ⟨rfl, rfl, rfl⟩⟩
  | createCommunity name adminid public_ =>
    obtain rfl := Option.some.inj hx
    exact ⟨_, rfl, .community _ _ _, fun n id ↦ rfl⟩
  | createChannel name communityid anonymous adminid =>
    obtain rfl := Option.some.inj hx
    exact ⟨_, rfl, .channel _ _ _ _, fun n id ↦ rfl⟩
  | _ => cases hx

theorem Asks.paired_creates (h : ρ.Asks r r') {x : Creates} (hx : r.creates = some x)
    (hw : ρ.Mirrors w w') (hfits : x.call.Fits w) (hmatches : ρ.Matches v v') :
    r.handle.Paired (Fair v) (Fair v') (ρ.Alike r) ρ.Mirrors r'.handle w w' := by
  obtain ⟨x', hx', hcall, hshows⟩ := h.creates hx
  rw [handle_creates hx, handle_creates hx']
  refine paired_caught (hcall.paired_steps hw hfits hmatches fun n id t t' hmirrors ↦ ?_)
  rw [Creation.finish_some, Creation.finish_some]
  exact ⟨⟨rfl, fun _ ↦ hshows n id⟩, hmirrors⟩

/-! ## Sends -/

theorem AdmitsMessage.grows {msg : WrongthinkMessage} (h : w.AdmitsMessage msg) (hw : w.Grows t) :
    t.AdmitsMessage msg := by
  obtain ⟨⟨huser, hchannel⟩, hchild⟩ := h
  obtain ⟨u, hu, hid⟩ := Serial.has_iff.mp huser
  obtain ⟨c, hc, hid'⟩ := Serial.has_iff.mp hchannel
  exact ⟨⟨Serial.has_iff.mpr ⟨u, hw.db.users.subset hu, hid⟩,
    Serial.has_iff.mpr ⟨c, hw.db.channels.subset hc, hid'⟩⟩, hchild⟩

/-- What one message, and then the loop, are to end in. -/
abbrev Onward {α α' : Type} (ρ : Renaming) (w : World .postgres) (_ : α) (t : World .postgres)
    (_ : α') (t' : World .sqlite) : Prop :=
  w.Grows t ∧ ρ.Mirrors t t'

theorem paired_cacheChannel (hw : ρ.Mirrors w w') (channelid : ℤ) :
    (cacheChannel channelid).Paired (Fair v) (Fair v') (ρ.Onward w) ρ.Mirrors
      (cacheChannel (ρ.channel channelid)) w w' := by
  refine paired_still hw rfl rfl rfl (fun _ ↦ ⟨_, rfl⟩) (fun _ ↦ ⟨_, rfl⟩)
    fun n t n' t' hs hs' hmirrors ↦ ?_
  -- the two servers have entries for the same channels
  have hn : n' = n := by
    obtain ⟨d, hn, _⟩ := hs.step.ok
    obtain ⟨d', hn', _⟩ := hs'.step.ok
    have hcount : n = if (w.channelMap channelid).isSome then 1 else 0 := Except.ok.inj hn
    have hcount' : n' = if (w'.channelMap (ρ.channel channelid)).isSome then 1 else 0 :=
      Except.ok.inj hn'
    rw [hcount, hcount', hw.channelMap]
  rw [hn]
  split
  · refine paired_still hmirrors rfl rfl rfl (fun _ ↦ ⟨_, rfl⟩) (fun _ ↦ ⟨_, rfl⟩)
      fun name t₁ name' t₁' hs₁ _ hmirrors₁ ↦ ?_
    refine Prog.Paired.perform fun r₂ t₂ r₂' t₂' hs₂ hs₂' ↦ .inl ?_
    obtain ⟨x, rfl⟩ := hs₂.step.ok_of_not_store rfl
    obtain ⟨x', rfl⟩ := hs₂'.step.ok_of_not_store rfl
    refine ⟨x, x', rfl, rfl, ?_, hmirrors₁.of_still hs₂.step hs₂'.step rfl ?_ ?_⟩
    · exact trans_of World.Grows hs.step.grows (trans_of World.Grows hs₁.step.grows hs₂.step.grows)
    · exact fun T ↦ hs₂.step.frame T (by simp [Op.target])
    · exact fun T ↦ hs₂'.step.frame T (by simp [Op.target])
  · exact ⟨hs.step.grows, hmirrors⟩

/-- **One message** is stored on both servers. -/
theorem paired_sendOne {msg : WrongthinkMessage} (hw : ρ.Mirrors w w') (hmsg : w.AdmitsMessage msg)
    (hmatches : ρ.Matches v v') : (sendOne msg).Paired (Fair v) (Fair v') (ρ.Onward w) ρ.Mirrors
      (sendOne (ρ.sent msg)) w w' := by
  simp only [sendOne, appendMessage, Prog.bind_assoc]
  refine (paired_cacheChannel hw msg.channelid).bind fun _ t _ t' ht ↦ ?_
  obtain ⟨hgrows, hmirrors⟩ := ht
  refine paired_still hmirrors rfl rfl rfl (fun _ ↦ ⟨_, rfl⟩) (fun _ ↦ ⟨_, rfl⟩)
    fun _ t₁ _ t₁' hs₁ _ hmirrors₁ ↦ ?_
  refine paired_still hmirrors₁ rfl rfl rfl (fun _ ↦ ⟨_, rfl⟩) (fun _ ↦ ⟨_, rfl⟩)
    fun _ t₂ _ t₂' hs₂ _ hmirrors₂ ↦ ?_
  refine paired_still hmirrors₂ rfl rfl rfl (fun _ ↦ ⟨_, rfl⟩) (fun _ ↦ ⟨_, rfl⟩)
    fun _ t₃ _ t₃' hs₃ _ hmirrors₃ ↦ ?_
  have hgrows₃ : w.Grows t₃ := trans_of World.Grows hgrows (trans_of World.Grows hs₁.step.grows
    (trans_of World.Grows hs₂.step.grows hs₃.step.grows))
  obtain ⟨hrefs, hchild⟩ := AdmitsMessage.grows hmsg hgrows₃
  refine Prog.Paired.perform fun r t₄ r' t₄' hs hs' ↦ .inl ?_
  -- Postgres finds the references and a date that fits; SQLite looks for neither
  have hok : r.isOk := hs.step.insertMessage_isOk hs.linked (if_pos hchild) (hs.timely rfl)
    fun _ ↦ hrefs
  have hok' : r'.isOk := hs'.step.insertMessage_isOk hs'.linked rfl rfl (by simp)
  obtain ⟨hr, m, hrows, hm⟩ | ⟨⟨e, rfl⟩, _⟩ := hs.step.insertMessage_eq
  swap
  · cases hok
  obtain ⟨hr', m', hrows', hm'⟩ | ⟨⟨e, rfl⟩, _⟩ := hs'.step.insertMessage_eq
  swap
  · cases hok'
  refine ⟨(), (), hr, hr', trans_of World.Grows hgrows₃ hs.step.grows, ?_⟩
  refine hmirrors₃.of_insert (T := .message) hs.step hs'.step rfl rfl hrows hrows'
    (hmatches.of_grows hs.grows hs'.grows) fun hkey ↦ ?_
  obtain ⟨huser, hchannel, hthread, hchild, hedited, htext⟩ := hm
  obtain ⟨huser', hchannel', hthread', hchild', hedited', htext'⟩ := hm'
  constructor
  · exact hkey
  · rw [huser', huser]
    rfl
  · rw [hchannel', hchannel]
    rfl
  · rw [hthread', hthread]
    rfl
  · rw [hchild', hchild]
    rfl
  · rw [hedited', hedited]
  · rw [htext', htext]
    rfl

/-- **The loop** stores every message on both servers. -/
theorem paired_sendLoop {ms : List WrongthinkMessage} (hw : ρ.Mirrors w w')
    (hms : ∀ msg ∈ ms, w.AdmitsMessage msg) (hmatches : ρ.Matches v v') :
    (sendLoop ms).Paired (Fair v) (Fair v')
      (fun x t x' t' ↦ (x = (Status.OK, ()) ∧ x' = (Status.OK, ())) ∧ ρ.Mirrors t t') ρ.Mirrors
      (sendLoop (ms.map ρ.sent)) w w' := by
  induction ms generalizing w w' with
  | nil => exact ⟨⟨rfl, rfl⟩, hw⟩
  | cons msg ms ih =>
    obtain ⟨hmsg, hms⟩ := List.forall_mem_cons.mp hms
    rw [List.map_cons, sendLoop_cons, sendLoop_cons]
    refine (paired_sendOne hw hmsg hmatches).bind fun _ t _ t' ht ↦ ?_
    exact ih ht.2 fun m hm ↦ AdmitsMessage.grows (hms m hm) ht.1

theorem Asks.sends (h : ρ.Asks r r') (hr : r.target = some .message) :
    r'.target = some .message ∧ r'.sends = r.sends.map ρ.sent ∧ ρ.Shows r .empty .empty := by
  cases h with
  | sendWeb msg => exact ⟨rfl, rfl, trivial⟩
  | send reader => exact ⟨rfl, rfl, trivial⟩
  | _ => cases hr

theorem Asks.paired_sends (h : ρ.Asks r r') (hr : r.target = some .message) (hw : ρ.Mirrors w w')
    (hms : ∀ msg ∈ r.sends, w.AdmitsMessage msg) (hmatches : ρ.Matches v v') :
    r.handle.Paired (Fair v) (Fair v') (ρ.Alike r) ρ.Mirrors r'.handle w w' := by
  obtain ⟨hr', hsends, hshows⟩ := h.sends hr
  rw [Request.handle_of_target_message hr, Request.handle_of_target_message hr', hsends]
  refine paired_caught (paired_still hw rfl rfl rfl (fun _ ↦ ⟨_, rfl⟩) (fun _ ↦ ⟨_, rfl⟩)
    fun _ t _ t' hs _ hmirrors ↦ ?_)
  refine (paired_sendLoop hmirrors (fun msg hmsg ↦ AdmitsMessage.grows (hms msg hmsg) hs.step.grows)
    hmatches).mono ?_
  rintro x t x' t' ⟨⟨rfl, rfl⟩, hmirrors⟩
  exact ⟨⟨rfl, fun _ ↦ hshows⟩, hmirrors⟩

/-! ## Listings -/

/-- **A listing** answers alike if the queries do. -/
theorem paired_query {α : Type} {q q' : Statement} {F : q.Result → Status × α}
    {F' : q'.Result → Status × α} {f : α → Response} {none : α} (hw : ρ.Mirrors w w')
    (hq : q.target = Option.none) (hq' : q'.target = Option.none)
    (hok : ∀ w : World .postgres, ∃ x, ((Op.sql q).exec w).1 = .ok x)
    (hok' : ∀ w : World .sqlite, ∃ x, ((Op.sql q').exec w).1 = .ok x)
    (hreply : ∀ t rs t₁ t' rs' t₁', ρ.Mirrors t t' → Op.Step (.sql q) t (.ok rs) t₁ →
      Op.Step (.sql q') t' (.ok rs') t₁' → t₁.Grows v → t₁'.Grows v' →
        ρ.Replies r ((F rs).1, f (F rs).2) ((F' rs').1, f (F' rs').2)) :
    (caught f none (do perform .session; let rs ← sql q; return F rs)).Paired (Fair v) (Fair v')
      (ρ.Alike r) ρ.Mirrors
      (caught f none (do perform .session; let rs ← sql q'; return F' rs)) w w' := by
  refine paired_caught (paired_still hw rfl rfl rfl (fun _ ↦ ⟨_, rfl⟩) (fun _ ↦ ⟨_, rfl⟩)
    fun _ t _ t' hs _ hmirrors ↦ ?_)
  refine paired_still hmirrors hq hq' rfl hok hok' fun rs t₁ rs' t₁' hs₁ hs₁' hmirrors₁ ↦ ?_
  exact ⟨hreply t rs t₁ t' rs' t₁' hmirrors hs₁.step hs₁'.step hs₁.grows hs₁'.grows, hmirrors₁⟩

theorem Mirrors.adminedCommunities (h : ρ.Mirrors w w') :
    w'.adminedCommunities.map Wrongthink.shownCommunity =
      (w.adminedCommunities.map Wrongthink.shownCommunity).map ρ.shownCommunity := by
  have hjoin := Serial.join_of_forall₂ (fun c ↦ c.admin) (fun c ↦ c.admin)
    (h.rows .communities) (h.rows .users) fun c c' u u' hc hu ↦ by
      rw [hc.admin, hu.user_id, ρ.user.injective.eq_iff]
  rw [List.map_map]
  refine (map_eq_of_forall₂ hjoin fun x x' hx ↦ ?_).symm
  rw [Function.comp_apply, Renaming.shownCommunity, Wrongthink.shownCommunity,
    Wrongthink.shownCommunity, hx.1.community_id, hx.1.name, hx.2.uname]

/-- The flag `anonymous` is read from the community, which is not zero on either server. -/
theorem Mirrors.adminedChannels (h : ρ.Mirrors w w')
    (hw : ∀ c ∈ w.db.communities.rows, 0 < c.community_id)
    (hw' : ∀ c ∈ w'.db.communities.rows, 0 < c.community_id) (communityid : ℤ) :
    (w'.adminedChannels (ρ.community communityid)).map
        (Wrongthink.shownChannel (ρ.community communityid)) =
      ((w.adminedChannels communityid).map (Wrongthink.shownChannel communityid)).map
        ρ.shownChannel := by
  have hchannels : List.Forall₂ (fun c c' ↦ c ∈ w.db.channels.rows ∧ ρ.Channel c c')
      w.db.channels.rows w'.db.channels.rows :=
    (List.forall₂_and_left _ _).mpr ⟨fun _ hc ↦ hc, h.rows .channels⟩
  have hselected := List.rel_filter (p := fun c ↦ decide (c.community = communityid))
    (q := fun c ↦ decide (c.community = ρ.community communityid)) (fun c c' hc ↦ by
      dsimp only
      rw [hc.2.community, decide_eq_true_eq, decide_eq_true_eq, ρ.community.injective.eq_iff])
    hchannels
  have hjoin := Serial.join_of_forall₂ (fun c ↦ c.admin) (fun c ↦ c.admin) hselected
    (h.rows .users) fun c c' u u' hc hu ↦ by
      rw [hc.2.admin, hu.user_id, ρ.user.injective.eq_iff]
  rw [List.map_map]
  refine (map_eq_of_forall₂ hjoin fun x x' hx ↦ ?_).symm
  obtain ⟨⟨hmem, hc⟩, hu⟩ := hx
  obtain ⟨d, hd, hid⟩ := (w.db.valid.references rfl).channel_community x.1 hmem
  obtain ⟨d', hd', hcommunity⟩ := exists_of_forall₂ (h.rows .communities) hd
  -- the column that is read as the flag holds the community, and ids are positive
  have hne : x.1.community ≠ 0 := by
    have hpos := hw d hd
    omega
  have hne' : x'.1.community ≠ 0 := by
    have hpos := hw' d' hd'
    rw [hcommunity.community_id, hid, ← hc.community] at hpos
    omega
  rw [Function.comp_apply, Renaming.shownChannel, Wrongthink.shownChannel, Wrongthink.shownChannel,
    hc.channel_id, hc.name, hu.uname, decide_eq_true hne, decide_eq_true hne']

theorem Mirrors.history (h : ρ.Mirrors w w') (channelid : ℤ) :
    List.Forall₂ ρ.ShowsMessage (w.history channelid) (w'.history (ρ.channel channelid)) := by
  have hselected := List.rel_filter (p := fun m ↦ decide (m.channel = channelid))
    (q := fun m ↦ decide (m.channel = ρ.channel channelid)) (fun m m' hm ↦ by
      dsimp only
      rw [hm.channel, decide_eq_true_eq, decide_eq_true_eq, ρ.channel.injective.eq_iff])
    (h.rows .message)
  have hjoin := Serial.join_of_forall₂ (fun m ↦ m.user_id) (fun m ↦ m.user_id) hselected
    (h.rows .users) fun m m' u u' hm hu ↦ by
      rw [hm.user_id, hu.user_id, ρ.user.injective.eq_iff]
  rw [World.history, World.history, List.forall₂_map_left_iff, List.forall₂_map_right_iff]
  refine hjoin.imp fun x x' hx ↦ ?_
  obtain ⟨hm, hu⟩ := hx
  rw [ShowsMessage, shown, shown, hu.uname, hm.user_id, hm.thread_id, hm.thread_child, hm.edited,
    hm.mtext, hm.msg_id]

/-- **Every request** that Postgres treats as SQLite does is answered alike. -/
theorem Asks.paired (h : ρ.Asks r r') (hw : ρ.Mirrors w w') (hadmits : w.Admits r)
    (hmatches : ρ.Matches v v') (hv : v.Numbered) (hv' : v'.Numbered) :
    r.handle.Paired (Fair v) (Fair v') (ρ.Alike r) ρ.Mirrors r'.handle w w' := by
  have hpos : ∀ {b : Backend} {t v : World b}, t.Grows v → v.Numbered →
      ∀ c ∈ t.db.communities.rows, 0 < c.community_id :=
    fun hgrows hv c hc ↦ hv.2 c (hgrows.db.communities.subset hc)
  cases h with
  | generateUser huuid =>
    exact (Asks.generateUser huuid).paired_creates rfl hw (hadmits.1 _ rfl) hmatches
  | createUser uname password admin =>
    exact (Asks.createUser uname password admin).paired_creates rfl hw (hadmits.1 _ rfl) hmatches
  | createCommunity name adminid public_ =>
    exact (Asks.createCommunity name adminid public_).paired_creates rfl hw (hadmits.1 _ rfl)
      hmatches
  | createChannel name communityid anonymous adminid =>
    exact (Asks.createChannel name communityid anonymous adminid).paired_creates rfl hw
      (hadmits.1 _ rfl) hmatches
  | getCommunities =>
    refine paired_query hw rfl rfl (fun _ ↦ ⟨_, rfl⟩) (fun _ ↦ ⟨_, rfl⟩)
      fun t rs t₁ t' rs' t₁' hmirrors hs hs' _ _ ↦ ?_
    rw [hs.selectCommunities_eq, hs'.selectCommunities_eq, hmirrors.adminedCommunities]
    exact ⟨rfl, fun _ ↦ List.Perm.refl _⟩
  | getChannels communityid =>
    refine paired_query hw rfl rfl (fun _ ↦ ⟨_, rfl⟩) (fun _ ↦ ⟨_, rfl⟩)
      fun t rs t₁ t' rs' t₁' hmirrors hs hs' hgrows hgrows' ↦ ?_
    rw [hs.selectCommunityChannels_eq, hs'.selectCommunityChannels_eq, hmirrors.adminedChannels
      (hpos (trans_of World.Grows hs.grows hgrows) hv)
      (hpos (trans_of World.Grows hs'.grows hgrows') hv')]
    exact ⟨rfl, fun _ ↦ rfl⟩
  | getMessages channelid =>
    refine paired_query hw rfl rfl (fun _ ↦ ⟨_, rfl⟩) (fun _ ↦ ⟨_, rfl⟩)
      fun t rs t₁ t' rs' t₁' hmirrors hs hs' _ _ ↦ ?_
    rw [hs.selectChannelMessages_eq, hs'.selectChannelMessages_eq]
    exact ⟨rfl, fun _ ↦ hmirrors.history channelid⟩
  | sendWeb msg => exact (Asks.sendWeb msg).paired_sends rfl hw hadmits.2 hmatches
  | send reader => exact (Asks.send reader).paired_sends rfl hw hadmits.2 hmatches

end Renaming

/-! ## Histories -/

/-- The clock fits the column of a message's date whenever one is inserted. -/
def Served.Timely (s : Served b) : Prop :=
  ∀ e ∈ s.actions, e.op.target = some .message → int4 b e.after.now = .ok e.after.now

theorem Served.Handled.fair {s : Served b} {w w₁ v : World b} (h : s.Handled w w₁)
    (hlinked : s.Linked) (htimely : s.Timely) (hv : w₁.Grows v) :
    Run (Fair v) w s.actions w₁ := by
  have hmid := (h.run.le fun _ _ hs ↦ hs.grows).2
  exact h.run.imp fun e he hs ↦
    ⟨hs, hlinked e he, trans_of World.Grows (hmid e he).2.2 hv, htimely e he⟩

/-- The history of one server, as far as Postgres has no reason of its own to refuse a request, and
no call to the database is lost. -/
structure Served.Plain (s : Served .postgres) (w : World .postgres) : Prop where
  admits : w.Admits s.request
  timely : s.Timely
  linked : s.Linked

theorem Serve.replies {ρ : Renaming} {w v : World .postgres} {w' v' : World .sqlite}
    {ss : List (Served .postgres)} {ss' : List (Served .sqlite)} (h : Serve w ss v)
    (h' : Serve w' ss' v') (hw : ρ.Mirrors w w') (hmatches : ρ.Matches v v') (hv : v.Numbered)
    (hv' : v'.Numbered)
    (hasks : List.Forall₂ (fun s s' ↦ ρ.Asks s.request s'.request) ss ss')
    (hplain : ∀ s u u', Serve.Passes w ss s u u' → s.Plain u) (hlinked : ∀ s ∈ ss', s.Linked) :
    List.Forall₂ (fun s s' ↦ ρ.Replies s.request s.reply s'.reply) ss ss' := by
  induction h generalizing w' ss' with
  | nil w =>
    cases hasks
    exact .nil
  | @cons s w w₁ v ss hs h ih =>
    cases hasks with
    | @cons _ s' _ ss' hask hasks =>
      cases h' with
      | @cons _ _ w₁' _ _ hs' h' =>
        obtain ⟨hlinked₁, hlinked'⟩ := List.forall_mem_cons.mp hlinked
        obtain ⟨hadmits, htimely, hlinked₀⟩ := hplain s w w₁ ⟨[], ss, rfl, .nil w, hs⟩
        have hpaired := hask.paired hw hadmits hmatches hv hv'
        obtain ⟨hreplies, hmirrors⟩ := hpaired.run hs.trace hs'.trace
          (hs.fair hlinked₀ htimely h.grows) (hs'.fair hlinked₁ (fun _ _ _ ↦ rfl) h'.grows)
        refine .cons hreplies (ih h' hmirrors hmatches hv hasks ?_ hlinked')
        exact fun t u u' hpasses ↦ hplain t u u' (hpasses.cons hs)

/-- **The two servers answer alike**, up to the renaming of what they have generated, as long as
every request is one that Postgres treats as SQLite does. -/
theorem replies_of_plain {ρ : Renaming} {now now' : ℤ} {v : World .postgres} {v' : World .sqlite}
    {ss : List (Served .postgres)} {ss' : List (Served .sqlite)}
    (h : Serve (World.start .postgres now) ss v) (h' : Serve (World.start .sqlite now') ss' v')
    (hmatches : ρ.Matches v v')
    (hasks : List.Forall₂ (fun s s' ↦ ρ.Asks s.request s'.request) ss ss')
    (hplain : ∀ s u u', Serve.Passes (World.start .postgres now) ss s u u' → s.Plain u)
    (hlinked : ∀ s ∈ ss', s.Linked) :
    List.Forall₂ (fun s s' ↦ ρ.Replies s.request s.reply s'.reply) ss ss' :=
  h.replies h' (Renaming.mirrors_start now now') hmatches (h.numbered (World.numbered_start now))
    (h'.numbered (World.numbered_start now')) hasks hplain hlinked

/-! ## A community, from its admin to its first message -/

theorem Served.linked_of_isOk {s : Served b} (h : ∀ e ∈ s.actions, e.result.isOk) : s.Linked := by
  intro e he herror
  have hok := h e he
  rw [herror] at hok
  cases hok

/-- Nothing is renamed. -/
private def sameNames : Renaming := ⟨.refl _, .refl _, .refl _, id, id, .refl _⟩

private def annComes : Request := .CreateUser ⟨"ann", "pw", false⟩

private def foundedBy (adminid : ℤ) : Request := .CreateWrongthinkCommunity ⟨"all", adminid, true⟩

private def hello : WrongthinkMessage := ⟨"ann", "", 1, 1, 0, 0, false, "hello", 0, 0⟩

private def firstRequests : List Request :=
  [annComes, foundedBy 1, .CreateWrongthinkChannel ⟨"main", 1, false, 1⟩,
    .SendWrongthinkMessageWeb hello, .GetWrongthinkMessages 1, .GetWrongthinkCommunities]

private def founded (b : Backend) : List (Served b) × World b :=
  serve (World.start b 0) firstRequests

private theorem plain_of_mem {w : World .postgres} {r : Request} {s : Served .postgres}
    (hs : s ∈ (serve w [r]).1) (hadmits : w.Admits r)
    (hactions : ∀ s ∈ (serve w [r]).1, ∀ e ∈ s.actions, e.result.isOk ∧
      (e.op.target = some .message → int4 .postgres e.after.now = .ok e.after.now)) :
    s.Plain w := by
  refine ⟨?_, fun e he ↦ (hactions s hs e he).2,
    Served.linked_of_isOk fun e he ↦ (hactions s hs e he).1⟩
  rw [request_of_mem_serve hs]
  exact hadmits

private theorem plain_founded : ∀ s u u',
    Serve.Passes (World.start .postgres 0) (founded .postgres).1 s u u' → s.Plain u := by
  intro s u u' h
  obtain ⟨hs, rfl⟩ | h := h.of_serve
  · refine plain_of_mem hs ⟨fun x hx ↦ ?_, by simp [annComes, Request.sends]⟩ (by decide)
    obtain rfl := Option.some.inj hx
    exact ⟨rfl, .inr ⟨_, rfl⟩⟩
  obtain ⟨hs, rfl⟩ | h := h.of_serve
  · refine plain_of_mem hs ⟨fun x hx ↦ ?_, by simp [foundedBy, Request.sends]⟩ (by decide)
    obtain rfl := Option.some.inj hx
    exact ⟨rfl, .inr fun _ ↦ by decide⟩
  obtain ⟨hs, rfl⟩ | h := h.of_serve
  · refine plain_of_mem hs ⟨fun x hx ↦ ?_, by simp [Request.sends]⟩ (by decide)
    obtain rfl := Option.some.inj hx
    exact ⟨rfl, .inr fun _ ↦ by decide⟩
  obtain ⟨hs, rfl⟩ | h := h.of_serve
  · refine plain_of_mem hs ⟨nofun, fun msg hmsg ↦ ?_⟩ (by decide)
    obtain rfl : msg = hello := List.mem_singleton.mp hmsg
    exact ⟨by decide, .inl rfl⟩
  obtain ⟨hs, rfl⟩ | h := h.of_serve
  · exact plain_of_mem hs ⟨nofun, by simp [Request.sends]⟩ (by decide)
  obtain ⟨hs, rfl⟩ | h := h.of_serve
  · exact plain_of_mem hs ⟨nofun, by simp [Request.sends]⟩ (by decide)
  obtain ⟨ss₁, ss₂, hnil, _⟩ := h
  simp [serve] at hnil

theorem replies_of_plain_founded :
    List.Forall₂ (fun s s' ↦ sameNames.Replies s.request s.reply s'.reply) (founded .postgres).1
      (founded .sqlite).1 := by
  refine replies_of_plain (serve_sound _ _) (serve_sound _ _) (fun T ↦ ?_)
    (.cons (.createUser _ _ _) (.cons (.createCommunity _ _ _) (.cons (.createChannel _ _ _ _)
      (.cons (.sendWeb _) (.cons (.getMessages _) (.cons .getCommunities .nil)))))) plain_founded
    fun s hs ↦ Served.linked_of_isOk ((by decide : ∀ s ∈ (founded .sqlite).1, ∀ e ∈ s.actions,
      e.result.isOk) s hs)
  cases T with
  | users | communities | channels | message =>
    exact List.forall_mem_cons.mpr ⟨rfl, List.forall_mem_nil _⟩
  | _ => exact List.forall_mem_nil _

private def orphanage (b : Backend) : List (Served b) × World b :=
  serve (World.start b 0) [foundedBy 7]

/-- Postgres refuses a community whose admin is no user, and SQLite takes it. -/
theorem exists_difference :
    ¬∀ (ρ : Renaming) (now now' : ℤ) (v : World .postgres) (v' : World .sqlite)
      (ss : List (Served .postgres)) (ss' : List (Served .sqlite)),
      Serve (World.start .postgres now) ss v → Serve (World.start .sqlite now') ss' v' →
        ρ.Matches v v' → List.Forall₂ (fun s s' ↦ ρ.Asks s.request s'.request) ss ss' →
          (∀ s ∈ ss, s.Linked) → (∀ s ∈ ss', s.Linked) →
            List.Forall₂ (fun s s' ↦ ρ.Replies s.request s.reply s'.reply) ss ss' := by
  intro h
  have hreplies := h sameNames 0 0 _ _ (orphanage .postgres).1 (orphanage .sqlite).1
    (serve_sound _ _) (serve_sound _ _) (fun T ↦ ?_) (.cons (.createCommunity _ _ _) .nil) ?_ ?_
  · have hstatus := (List.forall₂_cons.mp hreplies).1.status
    revert hstatus
    decide
  · cases T with
    | _ => exact List.forall_mem_nil _
  · refine List.forall_mem_cons.mpr ⟨?_, List.forall_mem_nil _⟩
    exact List.forall_mem_cons.mpr ⟨nofun, List.forall_mem_cons.mpr ⟨nofun, List.forall_mem_nil _⟩⟩
  · refine List.forall_mem_cons.mpr ⟨Served.linked_of_isOk ?_, List.forall_mem_nil _⟩
    decide

end Wrongthink
