import Wrongthink.Creation.Handlers
import Wrongthink.Service.Listing

/-!
# Creations and listings

After any number of creations, which may have run at the same time and failed in any way, the
communities and the channels are listed. What is listed are the rows whose admin is a user
(`adminedCommunities`, `adminedChannels`); what should be listed are the creations that were
answered `OK`. The rows are those of the creations whose insert was accepted, in the order of their
inserts (`rows_communities`, `rows_channels`), and of these a creation is answered `OK` if its
lookup is (`succeeded_iff`). So the two agree if and only if, for each accepted creation, the lookup
was answered exactly when the admin is a user (`listed_iff`).
-/

namespace Wrongthink

open Concurrent Relational

variable {b : Backend} {ι : Type}

/-! ## The creations of a run -/

/-- The threads that have inserted a row into `T`, in the order of the rows. -/
def inserters (T : Table) (l : List (ι × Action b)) : List ι :=
  (l.filter fun x ↦ x.2.op.target = some T ∧ x.2.result.isOk).map Prod.fst

theorem inserters_append (T : Table) (l : List (ι × Action b)) (x : ι × Action b) :
    inserters T (l ++ [x]) =
      inserters T l ++ if x.2.op.target = some T ∧ x.2.result.isOk then [x.1] else [] := by
  rw [inserters, List.filter_append, List.map_append, ← inserters]
  congr 1
  by_cases hx : x.2.op.target = some T ∧ x.2.result.isOk
  · rw [if_pos hx, List.filter_cons_of_pos (by simpa using hx)]
    rfl
  · rw [if_neg hx, List.filter_cons_of_neg (by simpa using hx)]
    rfl

/-- The call has returned `OK`. -/
def Succeeded (p : Routine Reply) : Bool :=
  match p.outcome with
  | some (.ok reply) => reply.1 = Status.OK
  | _ => false

/-- The admin that a community or a channel is created with. -/
def Request.adminid : Request → Option ℤ
  | CreateWrongthinkCommunity request => some request.adminid
  | CreateWrongthinkChannel request => some request.adminid
  | _ => none

variable [DecidableEq ι] {c c' : Pool ι Op Op.Result Exn Reply (World b)} {l : List (ι × Action b)}
  {calls : ι → Request}

theorem mem_inserters {T : Table} {i : ι} :
    i ∈ inserters T l ↔ ∃ e ∈ view i l, e.op.target = some T ∧ e.result.isOk := by
  simp only [inserters, List.mem_map, List.mem_filter, decide_eq_true_eq]
  constructor
  · rintro ⟨⟨j, e⟩, ⟨hmem, he⟩, rfl⟩
    exact ⟨e, mem_view.mpr hmem, he⟩
  · rintro ⟨e, hmem, he⟩
    exact ⟨(i, e), ⟨mem_view.mp hmem, he⟩, rfl⟩

theorem succeeded_iff_exists {p : Routine Reply} :
    Succeeded p ↔ ∃ reply, p = .done reply ∧ reply.1 = Status.OK := by
  cases p with
  | done reply => simp [Succeeded, Prog.outcome]
  | raise e => simp [Succeeded, Prog.outcome]
  | act o k => simp [Succeeded, Prog.outcome]

/-- The creations of a run: when every creation that has begun has returned, those that were
answered `OK` have inserted their row, and of those that have inserted it they are the ones with a
lookup. -/
structure Finished (calls : ι → Request) (c : Pool ι Op Op.Result Exn Reply (World b))
    (l : List (ι × Action b)) (c' : Pool ι Op Op.Result Exn Reply (World b)) : Prop where
  handling : ∀ i, c.thread i = (calls i).handle
  steps : Pool.Steps Op.Step c l c'
  returned : ∀ i, (calls i).creates.isSome → view i l ≠ [] → ∃ reply, c'.thread i = .done reply

namespace Finished

variable {i : ι} {x : Creates}

theorem trace (h : Finished calls c l c') (i : ι) :
    (calls i).handle.Trace (view i l) (c'.thread i) := by
  rw [← h.handling i]
  exact h.steps.view_trace i

theorem step (h : Finished calls c l c') {e : Action b} (he : e ∈ view i l) :
    Op.Step e.op e.before e.result e.after :=
  h.steps.sem_of_view he

theorem outcome (h : Finished calls c l c') (hx : (calls i).creates = some x) {reply : Reply}
    (hreply : c'.thread i = .done reply) : x.Outcome (view i l) reply := by
  have htr := h.trace i
  rw [hreply] at htr
  exact outcome_of_trace hx (fun _ he ↦ h.step he) htr

/-- A creation that has inserted its row is answered `OK` if its key has been looked up. -/
theorem succeeded_iff (h : Finished calls c l c') (hx : (calls i).creates = some x) {T : Table}
    (hi : i ∈ inserters T l) : Succeeded (c'.thread i) ↔ LookedUp (view i l) := by
  obtain ⟨e, he, htarget, hok⟩ := mem_inserters.mp hi
  obtain ⟨reply, hreply⟩ := h.returned i (by rw [hx]; rfl) (List.ne_nil_of_mem he)
  have haccepted : ¬Creation.Idle (view i l) := Creation.not_idle_of_mem he htarget hok
  rw [succeeded_iff_exists, ← (h.outcome hx hreply).ok_iff haccepted, hreply]
  simp

theorem mem_inserters_of_succeeded (h : Finished calls c l c') (hx : (calls i).creates = some x)
    (hok : Succeeded (c'.thread i)) : i ∈ inserters x.call.table l := by
  obtain ⟨reply, hreply, hok⟩ := succeeded_iff_exists.mp hok
  exact mem_inserters.mpr ((h.outcome hx hreply).exists_insert hok)

end Finished

/-! ## The rows -/

/-- The row that a creation of a community inserts. -/
def OfCommunity (b : Backend) (r : Request) (row : CommunityRow) : Prop :=
  ∃ request, r = .CreateWrongthinkCommunity request ∧ varchar b 100 request.name = .ok row.name ∧
    row.admin = request.adminid

/-- The row that a creation of a channel inserts. -/
def OfChannel (b : Backend) (r : Request) (row : ChannelRow) : Prop :=
  ∃ request, r = .CreateWrongthinkChannel request ∧ varchar b 100 request.name = .ok row.name ∧
    row.community = request.communityid ∧ row.admin = request.adminid

/-- An insert into `users`, `communities` or `channels` is that of a creation. -/
theorem exists_creates (hcalls : ∀ i, c.thread i = (calls i).handle)
    (h : Pool.Steps Op.Step c l c') {i : ι} {e : Action b} (he : e ∈ view i l) {q : Creation}
    (htarget : e.op.target = some q.table) :
    ∃ x adminct, (calls i).creates = some x ∧ x.call.table = q.table ∧
      e.op = .sql (x.call.insert adminct) := by
  have htr := h.view_trace i
  rw [hcalls i] at htr
  have hwithin := ((calls i).handle_only.trace htr).1 e he
  have hr : (calls i).target = some q.table :=
    (hwithin.resolve_left (by rw [htarget]; simp)).symm.trans htarget
  obtain ⟨x, hx, htable⟩ := Request.exists_creates hr
  obtain ⟨adminct, hop⟩ := ((handle_inserts hx).trace htr).1 e he (by rw [htarget]; simp)
  exact ⟨x, adminct, hx, htable, hop⟩

theorem forall₂_inserters {ρ : Type} {T : Table} (rows : World b → List ρ) {R : ι → ρ → Prop}
    (hstart : rows c.state = []) (h : Pool.Steps Op.Step c l c')
    (hframe : ∀ x ∈ l, x.2.op.target ≠ some T → rows x.2.after = rows x.2.before)
    (hinsert : ∀ x ∈ l, x.2.op.target = some T →
      (x.2.result.isOk ∧ ∃ row, rows x.2.after = rows x.2.before ++ [row] ∧ R x.1 row) ∨
        (x.2.result.isOk = false ∧ rows x.2.after = rows x.2.before)) :
    List.Forall₂ R (inserters T l) (rows c'.state) := by
  induction h with
  | nil =>
    rw [hstart]
    exact .nil
  | @snoc c' l i o k r w' h hk hs ih =>
    obtain ⟨hframe, hframe'⟩ := List.forall_mem_append.mp hframe
    obtain ⟨hinsert, hinsert'⟩ := List.forall_mem_append.mp hinsert
    have hrows := ih hframe hinsert
    rw [inserters_append]
    by_cases htarget : o.target = some T
    · obtain ⟨hok, row, hnew, hR⟩ | ⟨herror, hsame⟩ :=
        hinsert' _ (List.mem_singleton.mpr rfl) htarget
      · rw [if_pos ⟨htarget, hok⟩]
        dsimp only at hnew ⊢
        rw [hnew]
        exact List.rel_append hrows (.cons hR .nil)
      · rw [if_neg (by simp [herror]), List.append_nil]
        dsimp only at hsame ⊢
        rw [hsame]
        exact hrows
    · have hsame := hframe' _ (List.mem_singleton.mpr rfl) htarget
      rw [if_neg fun hx ↦ htarget hx.1, List.append_nil]
      dsimp only at hsame ⊢
      rw [hsame]
      exact hrows

theorem rows_inserters {ρ : Type} {q : Creation} (rows : World b → List ρ) {R : Request → ρ → Prop}
    (hstart : rows c.state = []) (hcalls : ∀ i, c.thread i = (calls i).handle)
    (h : Pool.Steps Op.Step c l c')
    (hframe : ∀ {o w r w'}, Op.Step o w r w' → o.target ≠ some q.table → rows w' = rows w)
    (hinsert : ∀ {r x adminct w w'} {v : Except Exn (Op.sql (x.call.insert adminct)).Result},
      Request.creates r = some x → x.call.table = q.table →
        Op.Step (.sql (x.call.insert adminct)) w v w' →
          (v.isOk ∧ ∃ row, rows w' = rows w ++ [row] ∧ R r row) ∨
            (v.isOk = false ∧ rows w' = rows w)) :
    List.Forall₂ (fun i row ↦ R (calls i) row) (inserters q.table l) (rows c'.state) := by
  refine forall₂_inserters rows hstart h (fun x hx htarget ↦ hframe (h.sem_of_mem hx) htarget)
    fun x hx htarget ↦ ?_
  obtain ⟨y, adminct, hy, htable, hop⟩ := exists_creates hcalls h (mem_view.mpr hx) htarget
  have hs := h.sem_of_mem hx
  obtain ⟨i, w, o, r, w'⟩ := x
  dsimp only at hop hs hy ⊢
  subst hop
  exact hinsert hy htable hs

/-- **The communities** are those of the creations whose insert was accepted. -/
theorem rows_communities (hstart : c.state.db.communities.rows = [])
    (hcalls : ∀ i, c.thread i = (calls i).handle) (h : Pool.Steps Op.Step c l c') :
    List.Forall₂ (fun i row ↦ OfCommunity b (calls i) row) (inserters .communities l)
      c'.state.db.communities.rows := by
  refine rows_inserters (q := .community "" 0 false) (fun w ↦ w.db.communities.rows) hstart hcalls h
    (fun hs htarget ↦ hs.frame .communities htarget) fun {r} _ _ _ _ _ hx htable hs ↦ ?_
  cases r with
  | CreateWrongthinkCommunity request =>
    obtain rfl := Option.some.inj hx
    obtain ⟨rfl, row, hrows, hname, hadmin, _⟩ | ⟨⟨e, rfl⟩, hrows⟩ := hs.insertCommunity_eq
    · exact .inl ⟨rfl, row, hrows, request, rfl, hname, hadmin⟩
    · exact .inr ⟨rfl, hrows⟩
  | _ => cases hx <;> cases htable

/-- **The channels** are those of the creations whose insert was accepted. -/
theorem rows_channels (hstart : c.state.db.channels.rows = [])
    (hcalls : ∀ i, c.thread i = (calls i).handle) (h : Pool.Steps Op.Step c l c') :
    List.Forall₂ (fun i row ↦ OfChannel b (calls i) row) (inserters .channels l)
      c'.state.db.channels.rows := by
  refine rows_inserters (q := .channel "" 0 0 false) (fun w ↦ w.db.channels.rows) hstart hcalls h
    (fun hs htarget ↦ hs.frame .channels htarget) fun {r} _ _ _ _ _ hx htable hs ↦ ?_
  cases r with
  | CreateWrongthinkChannel request =>
    obtain rfl := Option.some.inj hx
    obtain ⟨rfl, row, hrows, hname, hcommunity, hadmin, _⟩ | ⟨⟨e, rfl⟩, hrows⟩ :=
      hs.insertChannel_eq
    · exact .inl ⟨rfl, row, hrows, request, rfl, hname, hcommunity, hadmin⟩
    · exact .inr ⟨rfl, hrows⟩
  | _ => cases hx <;> cases htable

/-! ## The listings -/

/-- The name that a creation of a community or of a channel has stored. -/
def Request.stored (b : Backend) : Request → Except Exn String
  | CreateWrongthinkCommunity request => varchar b 100 request.name
  | CreateWrongthinkChannel request => varchar b 100 request.name
  | _ => .ok ""

/-- The admin of the creation is a user. -/
def Request.registered (w : World b) (r : Request) : Bool :=
  match r.adminid with
  | some id => w.db.users.has id
  | none => false

/-- The creation of a channel in this community. -/
def Request.inCommunity (communityid : ℤ) : Request → Bool
  | CreateWrongthinkChannel request => request.communityid = communityid
  | _ => false

/-- `x` is the community that `r` has created. -/
def ShowsCommunity (w : World b) (r : Request) (x : WrongthinkCommunity) : Prop :=
  ∃ row ∈ w.db.communities.rows, ∃ u ∈ w.db.users.rows, OfCommunity b r row ∧
    u.user_id = row.admin ∧ x = shownCommunity (row, u)

/-- `x` is the channel that `r` has created. -/
def ShowsChannel (w : World b) (communityid : ℤ) (r : Request) (x : WrongthinkChannel) : Prop :=
  ∃ row ∈ w.db.channels.rows, ∃ u ∈ w.db.users.rows, OfChannel b r row ∧ u.user_id = row.admin ∧
    row.community = communityid ∧ x = shownChannel communityid (row, u)

/-- The communities that are listed after the run are those that were created with the answer `OK`,
each once. -/
def ListsCommunities (calls : ι → Request) (c' : Pool ι Op Op.Result Exn Reply (World b)) : Prop :=
  ∀ (s : Served b) (w' : World b), s.Handled c'.state w' → s.request = .GetWrongthinkCommunities →
    s.Linked → ∃ out order out', s.reply = (Status.OK, .communities out) ∧ order.Nodup ∧
      (∀ i, i ∈ order ↔ (calls i).target = some .communities ∧ Succeeded (c'.thread i)) ∧
      out'.Perm out ∧ List.Forall₂ (fun i x ↦ ShowsCommunity c'.state (calls i) x) order out'

/-- The channels that are listed for a community are those that were created there with the answer
`OK`, each once and in the order of their creation. -/
def ListsChannels (calls : ι → Request) (l : List (ι × Action b))
    (c' : Pool ι Op Op.Result Exn Reply (World b)) : Prop :=
  ∀ (communityid : ℤ) (s : Served b) (w' : World b), s.Handled c'.state w' →
    s.request = .GetWrongthinkChannels communityid → s.Linked → ∃ out order,
      s.reply = (Status.OK, .channels out) ∧ order.Nodup ∧ order.Sublist (inserters .channels l) ∧
        (∀ i, i ∈ order ↔ (calls i).inCommunity communityid ∧ Succeeded (c'.thread i)) ∧
        List.Forall₂ (fun i x ↦ ShowsChannel c'.state communityid (calls i) x) order out

theorem nodup_map_ok {ρ : Type} {f : ρ → String} {l : List ρ} (h : (l.map f).Nodup) :
    (l.map fun r ↦ (.ok (f r) : Except Exn String)).Nodup := by
  have hok := h.map (f := (Except.ok : String → Except Exn String)) fun _ _ ↦ Except.ok.inj
  rw [List.map_map] at hok
  exact hok

theorem OfCommunity.stored {r : Request} {row : CommunityRow} (h : OfCommunity b r row) :
    r.stored b = .ok row.name := by
  obtain ⟨request, rfl, hname, _⟩ := h
  exact hname

theorem OfCommunity.registered {r : Request} {row : CommunityRow} (h : OfCommunity b r row)
    (w : World b) : r.registered w = w.db.users.has row.admin := by
  obtain ⟨request, rfl, _, hadmin⟩ := h
  rw [hadmin]
  rfl

theorem OfChannel.stored {r : Request} {row : ChannelRow} (h : OfChannel b r row) :
    r.stored b = .ok row.name := by
  obtain ⟨request, rfl, hname, _⟩ := h
  exact hname

theorem OfChannel.registered {r : Request} {row : ChannelRow} (h : OfChannel b r row)
    (w : World b) : r.registered w = w.db.users.has row.admin := by
  obtain ⟨request, rfl, _, _, hadmin⟩ := h
  rw [hadmin]
  rfl

theorem OfChannel.inCommunity {r : Request} {row : ChannelRow} (h : OfChannel b r row)
    (communityid : ℤ) : r.inCommunity communityid = decide (row.community = communityid) := by
  obtain ⟨request, rfl, _, hcommunity, _⟩ := h
  rw [hcommunity]
  rfl

theorem Request.target_of_inCommunity {r : Request} {communityid : ℤ}
    (h : r.inCommunity communityid) : r.target = some .channels := by
  cases r with
  | CreateWrongthinkChannel request => rfl
  | _ => cases h

omit [DecidableEq ι] in
theorem shows_adminedCommunities {w : World b} {order : List ι}
    (h : List.Forall₂ (fun i row ↦ OfCommunity b (calls i) row) order w.db.communities.rows) :
    List.Forall₂ (fun i x ↦ ShowsCommunity w (calls i) x)
      (order.filter fun i ↦ (calls i).registered w)
      (w.adminedCommunities.map shownCommunity) := by
  rw [List.forall₂_map_right_iff]
  refine (Serial.forall₂_join (forall₂_mem_right h) fun i row hi ↦ hi.2.registered w).imp
    fun i x hx ↦ ?_
  obtain ⟨⟨hrow, hi⟩, hu, hid⟩ := hx
  exact ⟨x.1, hrow, x.2, hu, hi, hid, rfl⟩

omit [DecidableEq ι] in
theorem shows_adminedChannels {w : World b} {order : List ι} (communityid : ℤ)
    (h : List.Forall₂ (fun i row ↦ OfChannel b (calls i) row) order w.db.channels.rows) :
    List.Forall₂ (fun i x ↦ ShowsChannel w communityid (calls i) x)
      ((order.filter fun i ↦ (calls i).inCommunity communityid).filter fun i ↦
        (calls i).registered w)
      ((w.adminedChannels communityid).map (shownChannel communityid)) := by
  have hselected := List.rel_filter (p := fun i ↦ (calls i).inCommunity communityid)
    (q := fun row ↦ decide (row.community = communityid))
    (fun i row hi ↦ iff_of_eq (congrArg (· = true) (hi.2.inCommunity communityid)))
    (forall₂_mem_right h)
  rw [List.forall₂_map_right_iff]
  refine (Serial.forall₂_join (forall₂_mem_right hselected) fun i row hi ↦
    hi.2.2.registered w).imp fun i x hx ↦ ?_
  obtain ⟨⟨hselected, hrow, hi⟩, hu, hid⟩ := hx
  exact ⟨x.1, hrow, x.2, hu, hi, hid, of_decide_eq_true (List.mem_filter.mp hselected).2, rfl⟩

namespace Finished

theorem target_of_mem_inserters (h : Finished calls c l c') {q : Creation} {i : ι}
    (hi : i ∈ inserters q.table l) : ∃ x, (calls i).creates = some x ∧ x.call.table = q.table := by
  obtain ⟨e, he, htarget, _⟩ := mem_inserters.mp hi
  obtain ⟨x, _, hx, htable, _⟩ := exists_creates h.handling h.steps he htarget
  exact ⟨x, hx, htable⟩

theorem mem_inserters_iff (h : Finished calls c l c') {q : Creation} {i : ι} :
    i ∈ inserters q.table l ∧ Succeeded (c'.thread i) ↔
      (calls i).target = some q.table ∧ Succeeded (c'.thread i) := by
  refine and_congr_left fun hok ↦ ⟨fun hi ↦ ?_, fun htarget ↦ ?_⟩
  · obtain ⟨x, hx, htable⟩ := h.target_of_mem_inserters hi
    rw [Request.target_of_creates hx, htable]
  · obtain ⟨x, hx, htable⟩ := Request.exists_creates htarget
    rw [← htable]
    exact h.mem_inserters_of_succeeded hx hok

/-- The listing of the communities is right if of the creations that have inserted a row those that
were answered `OK` are those with a registered admin. -/
theorem communities_iff (h : Finished calls c l c') (hstart : c.state.db.communities.rows = []) :
    ListsCommunities calls c' ↔
      ∀ i ∈ inserters .communities l, Succeeded (c'.thread i) = (calls i).registered c'.state := by
  have hrows := rows_communities hstart h.handling h.steps
  have hnodup : ((inserters .communities l).map fun i ↦ (calls i).stored b).Nodup := by
    rw [map_eq_of_forall₂ hrows fun i row hi ↦ hi.stored]
    exact nodup_map_ok c'.state.db.valid.communities_name
  have hmem : ∀ i, i ∈ inserters .communities l ∧ Succeeded (c'.thread i) ↔
      (calls i).target = some .communities ∧ Succeeded (c'.thread i) :=
    fun i ↦ h.mem_inserters_iff (q := .community "" 0 false)
  have hlisting := shows_adminedCommunities hrows
  constructor
  · intro hlists
    obtain ⟨s, w', hs, hrequest, hlinked⟩ := exists_getCommunities c'.state
    obtain ⟨out, order, out', hreply, _, horder, hperm, hshows⟩ := hlists s w' hs hrequest hlinked
    rw [hs.reply_getCommunities hrequest hlinked, Prod.mk.injEq,
      Response.communities.injEq] at hreply
    rw [← hreply.2] at hperm
    refine eq_of_shown hnodup (g := fun x ↦ .ok x.name) ?_ (fun i ↦ (horder i).trans (hmem i).symm)
      hlisting hshows hperm
    rintro i x ⟨row, _, u, _, hi, _, rfl⟩
    exact hi.stored
  · intro hagree s w' hs hrequest hlinked
    refine ⟨_, (inserters .communities l).filter fun i ↦ Succeeded (c'.thread i), _,
      hs.reply_getCommunities hrequest hlinked, (hnodup.of_map _).filter _, fun i ↦ ?_,
      List.Perm.refl _, ?_⟩
    · rw [List.mem_filter, hmem]
    · rw [List.filter_congr hagree]
      exact hlisting

theorem channels_iff (h : Finished calls c l c') (hstart : c.state.db.channels.rows = []) :
    ListsChannels calls l c' ↔
      ∀ i ∈ inserters .channels l, Succeeded (c'.thread i) = (calls i).registered c'.state := by
  have hrows := rows_channels hstart h.handling h.steps
  have hnodup : ((inserters .channels l).map fun i ↦ (calls i).stored b).Nodup := by
    rw [map_eq_of_forall₂ hrows fun i row hi ↦ hi.stored]
    exact nodup_map_ok c'.state.db.valid.channels_name
  have hmem : ∀ communityid i, i ∈ ((inserters .channels l).filter fun i ↦
      (calls i).inCommunity communityid) ∧ Succeeded (c'.thread i) ↔
        (calls i).inCommunity communityid ∧ Succeeded (c'.thread i) := by
    refine fun communityid i ↦ and_congr_left fun hok ↦ ?_
    rw [List.mem_filter, and_iff_right_iff_imp]
    intro hin
    exact ((h.mem_inserters_iff (q := .channel "" 0 0 false)).mpr
      ⟨Request.target_of_inCommunity hin, hok⟩).1
  constructor
  · intro hlists i hi
    obtain ⟨communityid, hin⟩ : ∃ communityid, (calls i).inCommunity communityid := by
      obtain ⟨x, hx, htable⟩ := h.target_of_mem_inserters (q := .channel "" 0 0 false) hi
      cases hcall : calls i with
      | CreateWrongthinkChannel request =>
        exact ⟨request.communityid, by simp [Request.inCommunity]⟩
      | _ =>
        rw [hcall] at hx
        cases hx <;> cases htable
    obtain ⟨s, w', hs, hrequest, hlinked⟩ := exists_getChannels c'.state communityid
    obtain ⟨out, order, hreply, _, _, horder, hshows⟩ := hlists communityid s w' hs hrequest hlinked
    rw [hs.reply_getChannels hrequest hlinked, Prod.mk.injEq, Response.channels.injEq] at hreply
    rw [← hreply.2] at hshows
    -- one reply is shown to list both, and stored names do not repeat
    refine eq_of_shown (hnodup.sublist (List.filter_sublist.map _)) (g := fun x ↦ .ok x.name) ?_
      (fun i ↦ (horder i).trans (hmem communityid i).symm) (shows_adminedChannels communityid hrows)
      hshows (List.Perm.refl _) i (List.mem_filter.mpr ⟨hi, hin⟩)
    rintro i x ⟨row, _, u, _, hi, _, _, rfl⟩
    exact hi.stored
  · intro hagree communityid s w' hs hrequest hlinked
    refine ⟨_,
      ((inserters .channels l).filter fun i ↦ (calls i).inCommunity communityid).filter fun i ↦
      Succeeded (c'.thread i), hs.reply_getChannels hrequest hlinked,
      ((hnodup.of_map _).filter _).filter _, List.filter_sublist.trans List.filter_sublist,
      fun i ↦ ?_, ?_⟩
    · rw [List.mem_filter, hmem]
    · rw [List.filter_congr fun i hi ↦ hagree i (List.mem_filter.mp hi).1]
      exact shows_adminedChannels communityid hrows

/-! ## Both listings -/

theorem succeeded_eq_registered_iff (h : Finished calls c l c') {q : Creation} {i : ι}
    (hi : i ∈ inserters q.table l) : Succeeded (c'.thread i) = (calls i).registered c'.state ↔
      (LookedUp (view i l) ↔ (calls i).registered c'.state) := by
  obtain ⟨x, hx, _⟩ := h.target_of_mem_inserters hi
  rw [Bool.eq_iff_iff, h.succeeded_iff hx hi]

/-- Postgres refuses a row whose admin is not registered. -/
theorem registered_of_postgres {c c' : Pool ι Op Op.Result Exn Reply (World .postgres)}
    {l : List (ι × Action .postgres)} (h : Finished calls c l c')
    (hcommunities : c.state.db.communities.rows = []) (hchannels : c.state.db.channels.rows = [])
    {T : Table} (hT : T = .communities ∨ T = .channels) {i : ι} (hi : i ∈ inserters T l) :
    (calls i).registered c'.state := by
  have hreferences := c'.state.db.valid.references rfl
  rcases hT with rfl | rfl
  · obtain ⟨row, hrow, hcreated⟩ :=
      exists_of_forall₂ (rows_communities hcommunities h.handling h.steps) hi
    rw [hcreated.registered]
    exact Serial.has_iff.mpr (hreferences.community_admin row hrow)
  · obtain ⟨row, hrow, hcreated⟩ :=
      exists_of_forall₂ (rows_channels hchannels h.handling h.steps) hi
    rw [hcreated.registered]
    exact Serial.has_iff.mpr (hreferences.channel_admin row hrow)

end Finished

/-- Both listings are right after the run. -/
structure Listed (calls : ι → Request) (l : List (ι × Action b))
    (c' : Pool ι Op Op.Result Exn Reply (World b)) : Prop where
  communities : ListsCommunities calls c'
  channels : ListsChannels calls l c'

/-- **The listings show what was created with the answer `OK`** if and only if every creation whose
insert was accepted has had its lookup answered exactly when its admin is a user: whatever else is
requested at the same time, and however the calls are interleaved. -/
theorem listed_iff (h : Finished calls c l c') (hcommunities : c.state.db.communities.rows = [])
    (hchannels : c.state.db.channels.rows = []) :
    Listed calls l c' ↔ ∀ T, T = .communities ∨ T = .channels → ∀ i ∈ inserters T l,
      (LookedUp (view i l) ↔ (calls i).registered c'.state) := by
  constructor
  · rintro ⟨hlists, hlists'⟩ T hT i hi
    rcases hT with rfl | rfl
    · rw [← h.succeeded_eq_registered_iff (q := .community "" 0 false) hi]
      exact (h.communities_iff hcommunities).mp hlists i hi
    · rw [← h.succeeded_eq_registered_iff (q := .channel "" 0 0 false) hi]
      exact (h.channels_iff hchannels).mp hlists' i hi
  · intro hagree
    constructor
    · refine (h.communities_iff hcommunities).mpr fun i hi ↦ ?_
      rw [h.succeeded_eq_registered_iff (q := .community "" 0 false) hi]
      exact hagree .communities (.inl rfl) i hi
    · refine (h.channels_iff hchannels).mpr fun i hi ↦ ?_
      rw [h.succeeded_eq_registered_iff (q := .channel "" 0 0 false) hi]
      exact hagree .channels (.inr rfl) i hi

/-- A user and a community are created at the same time. -/
private def foundingRequest (i : Bool) : Request :=
  if i then .CreateUser ⟨"ann", "pw", false⟩ else .CreateWrongthinkCommunity ⟨"all", 1, true⟩

private def founding : Pool Bool Op Op.Result Exn Reply (World .sqlite) :=
  ⟨World.start .sqlite 0, fun i ↦ (foundingRequest i).handle⟩

private theorem finished_founding (schedule : List Bool)
    (hreturned : ∀ i, ∃ reply, (Pool.replay Op.exec founding schedule).2.thread i = .done reply) :
    Finished foundingRequest founding (Pool.replay Op.exec founding schedule).1
      (Pool.replay Op.exec founding schedule).2 :=
  ⟨fun _ ↦ rfl, Pool.replay_sound Op.step_exec _ _, fun i _ _ ↦ hreturned i⟩

/-- The user has come first, and the community is listed. -/
theorem listed_iff_founding :
    Listed foundingRequest
        (Pool.replay Op.exec founding [true, false, true, true, false, true, false]).1
        (Pool.replay Op.exec founding [true, false, true, true, false, true, false]).2 ↔
      ∀ T, T = .communities ∨ T = .channels → ∀ i ∈ inserters T
        (Pool.replay Op.exec founding [true, false, true, true, false, true, false]).1,
          (LookedUp (view i
            (Pool.replay Op.exec founding [true, false, true, true, false, true, false]).1) ↔
          (foundingRequest i).registered
            (Pool.replay Op.exec founding
              [true, false, true, true, false, true, false]).2.state) := by
  refine listed_iff (finished_founding _ fun i ↦ ?_) rfl rfl
  cases i with
  | true => exact ⟨_, rfl⟩
  | false => exact ⟨_, rfl⟩

private def orphanRequest (_ : Unit) : Request := .CreateWrongthinkCommunity ⟨"all", 7, true⟩

private def orphan : Pool Unit Op Op.Result Exn Reply (World .sqlite) :=
  ⟨World.start .sqlite 0, fun i ↦ (orphanRequest i).handle⟩

/-- SQLite accepts a community whose admin is no user, and the listing leaves it out. -/
theorem exists_unlisted :
    ¬∀ (calls : Unit → Request) (c c' : Pool Unit Op Op.Result Exn Reply (World .sqlite))
      (l : List (Unit × Action .sqlite)), Finished calls c l c' →
        c.state = World.start .sqlite 0 → Listed calls l c' := by
  intro hlisted
  have hfinished : Finished orphanRequest orphan (Pool.replay Op.exec orphan [(), (), ()]).1
      (Pool.replay Op.exec orphan [(), (), ()]).2 :=
    ⟨fun _ ↦ rfl, Pool.replay_sound Op.step_exec _ _, fun _ _ _ ↦ ⟨_, rfl⟩⟩
  have hlists := (hlisted _ _ _ _ hfinished rfl).communities
  have hagree := (hfinished.communities_iff rfl).mp hlists () (by decide)
  revert hagree
  decide

end Wrongthink
