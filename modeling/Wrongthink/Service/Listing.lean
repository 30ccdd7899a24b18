import Wrongthink.Service.Serve

/-!
# Listing a table

The three listings send one query each and write the rows it returns, one after the other. Each
query is an inner join with `users`, so it leaves out the rows whose user is missing. What a listing
writes is a function of the state, as long as its calls reach the database
(`Served.Handled.reply_of_query`).
-/

namespace Wrongthink

open Concurrent Relational WrongthinkServiceImpl

variable {b : Backend}

/-! ## Rows -/

theorem WrongthinkServiceImpl.writeRows_map {α β : Type} {decode : SqlRow → Except Exn α}
    {g : β → SqlRow} {f : β → α} {l : List β} (h : ∀ x ∈ l, decode (g x) = .ok (f x)) :
    writeRows decode (l.map g) = (Status.OK, l.map f) := by
  induction l with
  | nil => rfl
  | cons x l ih =>
    obtain ⟨hx, hl⟩ := List.forall_mem_cons.mp h
    rw [List.map_cons, writeRows, hx, ih hl]
    rfl

/-- How a community is shown with its admin. -/
def shownCommunity (x : CommunityRow × UserRow) : WrongthinkCommunity :=
  ⟨x.1.community_id, x.1.name, x.2.uname⟩

/-- How a channel is shown with its admin: `anonymous` is read from the column of the community. -/
def shownChannel (communityid : ℤ) (x : ChannelRow × UserRow) : WrongthinkChannel :=
  ⟨x.1.channel_id, x.1.name, x.1.community ≠ 0, communityid, x.2.uname⟩

theorem decodeCommunity_columns (c : CommunityRow) (u : UserRow) :
    decodeCommunity (c.columns ++ u.columns) = .ok (shownCommunity (c, u)) := rfl

theorem decodeChannel_columns (communityid : ℤ) (c : ChannelRow) (u : UserRow) :
    decodeChannel communityid (c.columns ++ u.columns) =
      .ok (shownChannel communityid (c, u)) := rfl

namespace World

/-- The communities, each with its admin. -/
def adminedCommunities (w : World b) : List (CommunityRow × UserRow) :=
  Serial.join w.db.communities.rows w.db.users (·.admin)

/-- The channels of a community, each with its admin. -/
def adminedChannels (w : World b) (communityid : ℤ) : List (ChannelRow × UserRow) :=
  Serial.join (w.db.channels.rows.filter (·.community = communityid)) w.db.users (·.admin)

variable {w w' : World b}

theorem adminedCommunities_congr (h : ∀ T, w'.db.rows T = w.db.rows T) :
    w'.adminedCommunities = w.adminedCommunities := by
  have hcommunities : w'.db.communities.rows = w.db.communities.rows := h .communities
  have husers : w'.db.users.rows = w.db.users.rows := h .users
  rw [adminedCommunities, adminedCommunities, Serial.join, Serial.join, hcommunities, husers]

theorem adminedChannels_congr (h : ∀ T, w'.db.rows T = w.db.rows T) (communityid : ℤ) :
    w'.adminedChannels communityid = w.adminedChannels communityid := by
  have hchannels : w'.db.channels.rows = w.db.channels.rows := h .channels
  have husers : w'.db.users.rows = w.db.users.rows := h .users
  rw [adminedChannels, adminedChannels, Serial.join, Serial.join, hchannels, husers]

end World

/-! ## Ids of communities -/

/-- The sequence of the communities starts above zero. -/
def World.Numbered (w : World b) : Prop :=
  0 < w.db.communities.next ∧ ∀ c ∈ w.db.communities.rows, 0 < c.community_id

theorem Op.Step.numbered {o : Op} {w w' : World b} {r : Except Exn o.Result}
    (h : Op.Step o w r w') (hw : w.Numbered) : w'.Numbered := by
  have hskip : ∀ gaps : ℕ, 0 < w.db.communities.next + gaps := by
    intro gaps
    have hpos := hw.1
    omega
  cases o with
  | sql q =>
    obtain ⟨gaps, heffect⟩ := h.effect_now
    have hnext : 0 < (w.db.toTables.skip gaps).communities.next := hskip gaps.communities
    rw [World.Numbered]
    generalize w'.db.toTables = t' at *
    cases heffect with
    | insertCommunity name admin pub name' _ _ _ =>
      refine ⟨?_, fun c hc ↦ ?_⟩
      · change 0 < (w.db.toTables.skip gaps).communities.next + 1
        omega
      · rw [Serial.rows_push, List.mem_append, List.mem_singleton] at hc
        rcases hc with hc | rfl
        · exact hw.2 c hc
        · exact hnext
    | _ => exact ⟨hnext, hw.2⟩
  | _ =>
    obtain ⟨d, ⟨_, rfl⟩ | ⟨_, _, rfl⟩⟩ := h.cases
    · exact ⟨hskip d.gaps.communities, hw.2⟩
    · exact ⟨hskip d.gaps.communities, hw.2⟩

theorem Serve.numbered {w w' : World b} {ss : List (Served b)} (h : Serve w ss w')
    (hw : w.Numbered) : w'.Numbered := by
  induction h with
  | nil w => exact hw
  | cons hs _ ih =>
    exact ih (hs.run.preserves (I := World.Numbered) (fun _ _ hs hbefore ↦ hs.numbered hbefore) hw)

theorem World.numbered_start (now : ℤ) : (World.start b now).Numbered := ⟨Int.one_pos, nofun⟩

/-! ## Listings -/

/-- A request whose calls reach the database. -/
def Served.Linked (s : Served b) : Prop := ∀ e ∈ s.actions, e.result ≠ .error .connectionFailure

/-- A listing that has ended: one of its two actions has failed, or its query has been answered. -/
theorem trace_listing {α : Type} {q : Statement} {F : q.Result → Status × α} {f : α → Response}
    {none : α} {tr : List (Action b)} {reply : Reply}
    (h : (caught f none (do perform .session; let rs ← sql q; return F rs)).Trace tr
      (.done reply)) :
    ((∃ e ∈ tr, (∃ x, e.result = .error x) ∧ (e.op = .session ∨ e.op = .sql q)) ∧
        reply = (Status.INTERNAL, f none)) ∨
      ∃ w₁ w₁' w₂ rs w₂', tr = [⟨w₁, .session, .ok (), w₁'⟩, ⟨w₂, .sql q, .ok rs, w₂'⟩] ∧
        reply = ((F rs).1, f (F rs).2) := by
  obtain ⟨p, hp, hreply⟩ := trace_caught h
  rcases Prog.trace_perform_bind_iff.mp hp with
    ⟨_, rfl⟩ | ⟨w₁, v, w₁', tr₁, rfl, hp₁⟩ | ⟨w₁, e, w₁', rfl, rfl⟩
  · cases hreply
  swap
  · exact .inl ⟨⟨_, List.mem_cons_self, ⟨e, rfl⟩, .inl rfl⟩, Prog.done.inj hreply⟩
  rcases Prog.trace_perform_bind_iff.mp hp₁ with
    ⟨_, rfl⟩ | ⟨w₂, rs, w₂', tr₂, rfl, hp₂⟩ | ⟨w₂, e, w₂', rfl, rfl⟩
  · cases hreply
  swap
  · exact .inl ⟨⟨_, List.mem_cons_of_mem _ List.mem_cons_self, ⟨e, rfl⟩, .inr rfl⟩,
      Prog.done.inj hreply⟩
  obtain ⟨rfl, rfl⟩ := Prog.trace_done_iff.mp hp₂
  exact .inr ⟨w₁, w₁', w₂, rs, w₂', rfl, Prog.done.inj hreply⟩

/-- **A listing** whose calls reach the database answers with the rows of its query. -/
theorem Served.Handled.reply_of_query {s : Served b} {w w' : World b} {α : Type} {q : Statement}
    {F : q.Result → Status × α} {f : α → Response} {none : α} (h : s.Handled w w')
    (hlinked : s.Linked) (hq : ∀ w : World b, ∃ v, ((Op.sql q).exec w).1 = .ok v)
    (hhandle : s.request.handle =
      caught f none (do perform .session; let rs ← sql q; return F rs)) :
    ∃ w₁ rs, (∀ T, w₁.db.rows T = w.db.rows T) ∧ Op.Step (.sql q) w₁ (.ok rs) w' ∧
      s.reply = ((F rs).1, f (F rs).2) := by
  obtain ⟨htr, hrun⟩ := h
  rw [hhandle] at htr
  rcases trace_listing htr with ⟨⟨e, he, ⟨x, hx⟩, hop⟩, _⟩ | ⟨w₁, w₁', w₂, rs, w₂', htr, hreply⟩
  · have hstep := hrun.sem_of_mem he
    obtain ⟨w₁, o, r, w₁'⟩ := e
    obtain rfl : r = .error x := hx
    have hlost : x = .connectionFailure := by
      rcases hop with rfl | rfl
      · exact hstep.error_eq fun _ ↦ ⟨_, rfl⟩
      · exact hstep.error_eq hq
    exact absurd (congrArg Except.error hlost) (hlinked _ he)
  · rw [htr] at hrun
    obtain ⟨rfl, hsession, hrun⟩ := run_cons_iff.mp hrun
    obtain ⟨rfl, hquery, hrun⟩ := run_cons_iff.mp hrun
    rw [run_nil_iff.mp hrun]
    exact ⟨w₂, rs, fun T ↦ hsession.frame T (by simp [Op.target]), hquery, hreply⟩

theorem Op.Step.selectCommunities_eq {rs : List SqlRow} {w w' : World b}
    (h : Op.Step (.sql .selectCommunities) w (.ok rs) w') :
    writeRows decodeCommunity rs = (Status.OK, w.adminedCommunities.map shownCommunity) := by
  obtain ⟨d, hr, _⟩ := h.ok
  have hrs : rs = w.adminedCommunities.map fun x ↦ x.1.columns ++ x.2.columns := Except.ok.inj hr
  rw [hrs]
  exact writeRows_map fun x _ ↦ decodeCommunity_columns x.1 x.2

theorem Op.Step.selectCommunityChannels_eq {communityid : ℤ} {rs : List SqlRow} {w w' : World b}
    (h : Op.Step (.sql (.selectCommunityChannels communityid)) w (.ok rs) w') :
    writeRows (decodeChannel communityid) rs =
      (Status.OK, (w.adminedChannels communityid).map (shownChannel communityid)) := by
  obtain ⟨d, hr, _⟩ := h.ok
  have hrs : rs = (w.adminedChannels communityid).map fun x ↦ x.1.columns ++ x.2.columns :=
    Except.ok.inj hr
  rw [hrs]
  exact writeRows_map fun x _ ↦ decodeChannel_columns communityid x.1 x.2

theorem Served.Handled.reply_getCommunities {s : Served b} {w w' : World b} (h : s.Handled w w')
    (hrequest : s.request = .GetWrongthinkCommunities) (hlinked : s.Linked) :
    s.reply = (Status.OK, .communities (w.adminedCommunities.map shownCommunity)) := by
  obtain ⟨w₁, rs, hrows, hquery, hreply⟩ := h.reply_of_query (q := .selectCommunities) hlinked
    (fun _ ↦ ⟨_, rfl⟩) (by rw [hrequest]; rfl)
  rw [hreply, hquery.selectCommunities_eq, World.adminedCommunities_congr hrows]

theorem Served.Handled.reply_getChannels {s : Served b} {w w' : World b} {communityid : ℤ}
    (h : s.Handled w w') (hrequest : s.request = .GetWrongthinkChannels communityid)
    (hlinked : s.Linked) : s.reply =
      (Status.OK, .channels ((w.adminedChannels communityid).map (shownChannel communityid))) := by
  obtain ⟨w₁, rs, hrows, hquery, hreply⟩ := h.reply_of_query
    (q := .selectCommunityChannels communityid) hlinked (fun _ ↦ ⟨_, rfl⟩) (by rw [hrequest]; rfl)
  rw [hreply, hquery.selectCommunityChannels_eq, World.adminedChannels_congr hrows]

theorem exists_getCommunities (w : World b) : ∃ (s : Served b) (w' : World b),
    s.Handled w w' ∧ s.request = .GetWrongthinkCommunities ∧ s.Linked := by
  refine ⟨⟨.GetWrongthinkCommunities, _, _⟩, _, Served.handled_of_exec rfl, rfl, ?_⟩
  exact List.forall_mem_cons.mpr ⟨by simp,
    List.forall_mem_cons.mpr ⟨by simp [Database.exec, Statement.exec], List.forall_mem_nil _⟩⟩

theorem exists_getChannels (w : World b) (communityid : ℤ) : ∃ (s : Served b) (w' : World b),
    s.Handled w w' ∧ s.request = .GetWrongthinkChannels communityid ∧ s.Linked := by
  refine ⟨⟨.GetWrongthinkChannels communityid, _, _⟩, _, Served.handled_of_exec rfl, rfl, ?_⟩
  exact List.forall_mem_cons.mpr ⟨by simp,
    List.forall_mem_cons.mpr ⟨by simp [Database.exec, Statement.exec], List.forall_mem_nil _⟩⟩

end Wrongthink
