import DittoClient.NodeHttp.Linearizable

/-!
# What repeated requests do to the service

A request may be executed once for each of its attempts (`operations_executed`), and if it may be
repeated then also after its call has returned: an attempt that the client has given up is still on
its way (`executed_late_iff`). Deletions are repeated by default. If
only requests are repeated that leave the service as it is, the attempts that were not answered may
be left out of its history, in which each call is found once then (`calls_once`).
-/

namespace DittoClient

namespace NodeHttp

open DittoClient.Linear
open DittoClient.Wire (Alphabet Letters Service latin)
open DittoClient.Transition

/-- The bodies of the operations are of the types that `request` takes. -/
theorem normalizeRequestBody_requestInit (h : Http.HttpRequest) :
    normalizeRequestBody (requestInit h) = .ok () := by
  rw [normalizeRequestBody, requestInit]
  cases h.body with
  | none => rfl
  | some body =>
      cases body with
      | json members => rfl
      | raw contentType bytes =>
          by_cases hoctets : contentType = "application/octet-stream"
          · simp [hoctets]
          · simp [hoctets]

theorem Circuit.beforeRequest_init {c : Settings} (nowMs : ℕ) :
    (Circuit.init nowMs).beforeRequest c = .ok () (Circuit.init nowMs) := by
  have hclosed : ¬ (Circuit.init nowMs).circuitState = .opened := nofun
  rw [Circuit.beforeRequest, if_neg hclosed, ite_self]

variable {σ : Type*} {M : Service σ} {go : Letters} {java : Alphabet} {strict : Bool}
  {c : Settings} {respond : Wire.Request → Wire.ServerResponse → Http.Response}

/-- A client with one call that has not returned. -/
def Cluster.alone (nowMs : ℕ) (p : Promise Delivery) (x : Wire.Request × Http.HttpRequest)
    (begun : List (ℕ × ℕ)) (log : Log M.toMachine (ℕ × ℕ)) : Cluster M where
  client := ⟨Circuit.init nowMs, [p]⟩
  calls := [x]
  begun := begun
  log := log

section Late

variable {r q : Wire.Request} {x : Http.HttpRequest}

/-- A call whose first attempt runs out of time can be answered at the second one, while the first
one is still on its way. -/
theorem exists_repeated (hx : Http.send go java strict .node r = some x) (hq : x.read = some q)
    (hstatus : isRetryableStatus (respond q (M.handle M.init q).2).status = false)
    (hretries : 0 < retries c x) (nowMs : ℕ) :
    ∃ s : Cluster M, Reaches go java strict c respond (Cluster.init nowMs) s ∧
      s.calls = [(r, x)] ∧ s.begun = [(0, 0), (0, 1)] ∧ s.log.origins = [(0, 1)] ∧
        s.done = [((0, 1), respond q (M.handle M.init q).2)] := by
  have hretry : canRetry String.toUpper c (requestInit x) = true := by
    by_contra hno
    rw [retries, budget, if_neg hno] at hretries
    exact Nat.lt_irrefl 0 hretries
  have hmax : 0 < c.maxRetries := by rwa [retries, budget, if_pos hretry] at hretries
  rw [canRetry] at hretry
  let wakeMs := nowMs + computeBackoffMs c 1 0
  let idle : Log M.toMachine (ℕ × ℕ) := Log.empty
  let log := idle.record (some (0, 1)) q
  have hcall : clusterStep go java strict c respond (Cluster.init nowMs : Cluster M) (.call r) =
      some (.alone nowMs (.fetching true 0) (r, x) [(0, 0)] idle) := by
    simp only [clusterStep, hx, Client.step, Client.request, Cluster.init, Client.init,
      normalizeRequestBody_requestInit, Circuit.beforeRequest_init, hretry]
    rfl
  have hlost : clusterStep go java strict c respond
      (.alone nowMs (.fetching true 0) (r, x) [(0, 0)] idle)
      (.lose 0 (.error (.error "timeout")) 0) =
        some (.alone nowMs (.sleeping true 1 wakeMs) (r, x) [(0, 0)] idle) := by
    simp [clusterStep, Cluster.alone, Client.step, Client.reply, Reply.fails, hmax, wakeMs,
      Circuit.init]
  have htick : clusterStep go java strict c respond
      (.alone nowMs (.sleeping true 1 wakeMs) (r, x) [(0, 0)] idle)
      (.tick (computeBackoffMs c 1 0)) =
        some (.alone wakeMs (.sleeping true 1 wakeMs) (r, x) [(0, 0)] idle) := rfl
  have hwake : clusterStep go java strict c respond
      (.alone wakeMs (.sleeping true 1 wakeMs) (r, x) [(0, 0)] idle) (.wake 0) =
        some (.alone wakeMs (.fetching true 1) (r, x) [(0, 0), (0, 1)] idle) := by
    simp [clusterStep, Cluster.alone, Client.step, Client.running, Circuit.init]
  have hexecute : clusterStep go java strict c respond
      (.alone wakeMs (.fetching true 1) (r, x) [(0, 0), (0, 1)] idle) (.execute (0, 1)) =
        some (.alone wakeMs (.fetching true 1) (r, x) [(0, 0), (0, 1)] log) := by
    simp [clusterStep, Cluster.alone, hq, idle, log]
  have hanswer : clusterStep go java strict c respond
      (.alone wakeMs (.fetching true 1) (r, x) [(0, 0), (0, 1)] log) (.answer 0 0) = some
        ⟨⟨(Circuit.init wakeMs).recordSuccess c,
            [.resolved (respond q (M.handle M.init q).2).status
              ⟨respond q (M.handle M.init q).2, true⟩]⟩, [(r, x)], [(0, 0), (0, 1)], log⟩ := by
    have hresponse : response respond log (0, 1) = some (respond q (M.handle M.init q).2) := by
      simp [response, idle, log, Log.record, Machine.after]
    simp [clusterStep, Cluster.alone, Client.running, hresponse, Client.step, Client.reply,
      Reply.fails, hstatus, Reply.promise]
  have hrun : Reaches go java strict c respond (Cluster.init nowMs)
      (.alone wakeMs (.fetching true 1) (r, x) [(0, 0), (0, 1)] log) :=
    ⟨_, (((((Run.single trivial hcall).snoc trivial hlost).snoc trivial htick).snoc trivial
      hwake).snoc trivial hexecute)⟩
  obtain ⟨ls, hls⟩ := hrun
  exact ⟨_, ⟨_, hls.snoc trivial hanswer⟩, rfl, rfl, rfl, rfl⟩

/-- Then the first attempt can be executed at last. -/
theorem exists_late (hx : Http.send go java strict .node r = some x) (hq : x.read = some q)
    (hstatus : isRetryableStatus (respond q (M.handle M.init q).2).status = false)
    (hretries : 0 < retries c x) (nowMs : ℕ) :
    ∃ s t : Cluster M, Reaches go java strict c respond (Cluster.init nowMs) s ∧
      Reaches go java strict c respond s t ∧
        s.calls = [(r, x)] ∧ s.done = [((0, 1), respond q (M.handle M.init q).2)] ∧
          s.log.origins = [(0, 1)] ∧
            t.calls = s.calls ∧ t.done = s.done ∧ t.log.origins = [(0, 1), (0, 0)] := by
  obtain ⟨s, hs, hcalls, hbegun, horigins, hdone⟩ :=
    exists_repeated hx hq hstatus hretries nowMs
  have hlate : clusterStep go java strict c respond s (.execute (0, 0)) =
      some { s with log := s.log.record (some (0, 0)) q } := by
    simp [clusterStep, hcalls, hq, hbegun, horigins]
  have horigins' : (s.log.record (some (0, 0)) q).origins = [(0, 1), (0, 0)] := by
    rw [Log.origins_record, horigins]
    rfl
  exact ⟨s, _, hs, ⟨_, Run.single trivial hlate⟩, hcalls, hdone, horigins, rfl, rfl, horigins'⟩

/-- In every run, a request is executed once for each attempt that it may make at most, and once at
least if it has returned a response. -/
theorem operations_executed (go : Letters) (java : Alphabet) (strict : Bool) (c : Settings)
    (respond : Wire.Request → Wire.ServerResponse → Http.Response) (M : Service σ) (nowMs : ℕ) :
    ∀ s : Cluster M, Reaches go java strict c respond (Cluster.init nowMs) s →
      ∀ i r x, s.calls[i]? = some (r, x) → s.executions i ≤ retries c x + 1 ∧
        ∀ d ∈ s.done, d.1.1 = i → 0 < s.executions i := by
  intro s hs i r x hx
  refine ⟨hs.tracked.executions_le hx, ?_⟩
  rintro d hd rfl
  exact hs.tracked.executions_pos hd

/-- By default a deletion is executed up to three times, and twice if its first attempt is late. -/
theorem operations_executed_delete :
    ∃ s : Cluster Http.constant,
      s.calls = [(.delete "k" none, ⟨.delete, "/key/k", none, none⟩)] ∧ s.executions 0 = 2 ∧
        s.executions 0 ≤ 3 ∧ ∃ d ∈ s.done, d.1.1 = 0 ∧ 0 < s.executions 0 := by
  let respond : Wire.Request → Wire.ServerResponse → Http.Response :=
    fun _ _ => ⟨204, "No Content", "", none⟩
  have hretries : retries defaults ⟨.delete, "/key/k", none, none⟩ = 2 := by decide +kernel
  have hsend : Http.send latin latin.toAlphabet false .node (.delete "k" none) =
      some ⟨.delete, "/key/k", none, none⟩ := rfl
  have hread : (⟨.delete, "/key/k", none, none⟩ : Http.HttpRequest).read =
      some (.delete "k" none) := rfl
  have hstatus : isRetryableStatus (respond (.delete "k" none)
      (Http.constant.handle Http.constant.init (.delete "k" none)).2).status = false := rfl
  obtain ⟨s, t, hs, hst, hcalls, hdone, -, hcalls', hdone', horigins⟩ :=
    exists_late hsend hread hstatus (Nat.lt_of_lt_of_eq Nat.two_pos hretries.symm) 0
  have hcall : t.calls[0]? = some (.delete "k" none, ⟨.delete, "/key/k", none, none⟩) := by
    rw [hcalls', hcalls]
    rfl
  obtain ⟨hle, hpos⟩ := operations_executed latin latin.toAlphabet false defaults respond
    Http.constant 0 t (Reachable.trans hs hst) 0 _ _ hcall
  rw [hretries] at hle
  have hreturned : ((0, 1), ⟨204, "No Content", "", none⟩) ∈ t.done := by
    rw [hdone', hdone]
    exact List.mem_singleton_self _
  refine ⟨t, hcalls'.trans hcalls, ?_, hle, _, hreturned, rfl, hpos _ hreturned rfl⟩
  rw [Cluster.executions, horigins]
  rfl

/-- An operation can be executed after its call has returned if and only if it may be repeated. -/
theorem executed_late_iff (hx : Http.send go java strict .node r = some x) (hq : x.read = some q)
    (hstatus : isRetryableStatus (respond q (M.handle M.init q).2).status = false) (nowMs : ℕ) :
    (∃ (s t : Cluster M) (d : (ℕ × ℕ) × Http.Response),
      Reaches go java strict c respond (Cluster.init nowMs) s ∧
        Reaches go java strict c respond s t ∧ d ∈ s.done ∧ s.calls[d.1.1]? = some (r, x) ∧
          s.executions d.1.1 < t.executions d.1.1) ↔ 0 < retries c x := by
  constructor
  · rintro ⟨s, t, d, hs, hst, hd, hcall, hlt⟩
    by_contra hnone
    obtain ⟨ht, -, hcalls⟩ := hst.grows hs.tracked
    have hcall' : t.calls[d.1.1]? = some (r, x) := by
      obtain ⟨more, hmore⟩ := hcalls
      rw [← hmore, List.getElem?_append_left (List.getElem?_eq_some_iff.mp hcall).1, hcall]
    have hpos := hs.tracked.executions_pos hd
    have hle : t.executions d.1.1 ≤ retries c x + 1 := ht.executions_le hcall'
    omega
  · intro hretries
    obtain ⟨s, t, hs, hst, hcalls, hdone, horigins, -, -, horigins'⟩ :=
      exists_late hx hq hstatus hretries nowMs
    refine ⟨s, t, ((0, 1), respond q (M.handle M.init q).2), hs, hst, ?_, ?_, ?_⟩
    · rw [hdone]
      exact List.mem_singleton_self _
    · rw [hcalls]
      rfl
    · rw [Cluster.executions, Cluster.executions, horigins, horigins']
      exact Nat.lt_succ_self 1

/-- By default a deletion can be executed after its call has returned. -/
theorem executed_late_delete :
    ∃ (s t : Cluster Http.constant) (d : (ℕ × ℕ) × Http.Response),
      Reaches latin latin.toAlphabet false defaults (fun _ _ => ⟨204, "No Content", "", none⟩)
        (Cluster.init 0) s ∧
      Reaches latin latin.toAlphabet false defaults (fun _ _ => ⟨204, "No Content", "", none⟩)
        s t ∧
      d ∈ s.done ∧
        s.calls[d.1.1]? = some (.delete "k" none, ⟨.delete, "/key/k", none, none⟩) ∧
          s.executions d.1.1 < t.executions d.1.1 := by
  have hretries : 0 < retries defaults ⟨.delete, "/key/k", none, none⟩ := by decide +kernel
  have hread : (⟨.delete, "/key/k", none, none⟩ : Http.HttpRequest).read =
      some (.delete "k" none) := rfl
  exact (executed_late_iff rfl hread rfl 0).mpr hretries

end Late

section Once

/-- Whether an entry is left in the history of the calls: it is of another client, its response was
returned, or its request is never repeated. -/
def Cluster.keeps (c : Settings) (s : Cluster M)
    (e : Linear.Entry (ℕ × ℕ) Wire.Request Wire.ServerResponse) : Bool :=
  match e.origin with
  | none => true
  | some k => (s.done.any fun d => decide (d.1 = k)) ||
      s.calls[k.1]?.all fun x => decide (retries c x.2 = 0)

/-- The log without the attempts that were not answered of requests that may be repeated. -/
def Cluster.history (c : Settings) (s : Cluster M) :
    List (Linear.Entry (ℕ × ℕ) Wire.Request Wire.ServerResponse) :=
  s.log.entries.filter (s.keeps c)

/-- The requests that may be repeated leave the service as it is. -/
def RepeatsReads (go : Letters) (java : Alphabet) (strict : Bool) (c : Settings) (M : Service σ) :
    Prop :=
  ∀ r x q, Http.send go java strict .node r = some x → x.read = some q → 0 < retries c x →
    ∀ st, (M.handle st q).1 = st

variable {s t : Cluster M}

/-- The entries that are left out are requests that may be repeated. -/
theorem Cluster.Tracked.explains_history (h : s.Tracked go java strict c respond)
    (hreads : RepeatsReads go java strict c M) : M.Explains (s.history c) := by
  refine s.log.explained.filter fun e he hkeeps => ?_
  rw [Cluster.keeps] at hkeeps
  split at hkeeps
  · cases hkeeps
  · next k hk =>
      obtain ⟨x, hx, hread⟩ := h.reads e he k hk
      rw [hx, Option.all_some, Bool.or_eq_false_iff] at hkeeps
      exact hreads x.1 x.2 e.request (h.sends x (List.mem_of_getElem? hx)) hread
        (Nat.pos_of_ne_zero (of_decide_eq_false hkeeps.2))

/-- Two attempts of one call are not both in the history. -/
theorem Cluster.Tracked.once_history (h : s.Tracked go java strict c respond) :
    ((s.history c).filterMap fun e => e.origin.map Prod.fst).Nodup := by
  have hsub : ((s.history c).filterMap Linear.Entry.origin).Sublist s.log.origins :=
    List.filter_sublist.filterMap _
  have hkept : ∀ k ∈ (s.history c).filterMap Linear.Entry.origin, k ∈ s.begun ∧
      ((∃ d ∈ s.done, d.1 = k) ∨ ∀ x, s.calls[k.1]? = some x → retries c x.2 = 0) := by
    intro k hk
    refine ⟨h.executed k (hsub.subset hk), ?_⟩
    obtain ⟨e, he, horigin⟩ := List.mem_filterMap.mp hk
    have hkeeps := (List.mem_filter.mp he).2
    simp only [Cluster.keeps, horigin, Bool.or_eq_true, List.any_eq_true,
      decide_eq_true_eq] at hkeeps
    refine hkeeps.imp_right fun hnone x hx => ?_
    rw [hx, Option.all_some, decide_eq_true_eq] at hnone
    exact hnone
  rw [← List.map_filterMap]
  refine (h.once.sublist hsub).map_on fun k hk l hl hkl => ?_
  obtain ⟨hbegun, hk⟩ := hkept k hk
  obtain ⟨hbegun', hl⟩ := hkept l hl
  obtain ⟨x, hx, hle⟩ := h.begun k hbegun
  obtain ⟨x', hx', hle'⟩ := h.begun l hbegun'
  obtain rfl : x = x' := by
    rw [hkl, hx'] at hx
    exact (Option.some.inj hx).symm
  -- without retries there is one attempt, and otherwise one that was answered
  rcases Nat.eq_zero_or_pos (retries c x.2) with hzero | hpos
  · exact Prod.ext hkl (by omega)
  · obtain ⟨d, hd, rfl⟩ := hk.resolve_right fun hnone => hpos.ne' (hnone x hx)
    obtain ⟨d', hd', rfl⟩ := hl.resolve_right fun hnone => hpos.ne' (hnone x hx')
    have heq := (Cluster.mem_done.mp hd).symm.trans
      ((congrArg s.returned hkl).trans (Cluster.mem_done.mp hd'))
    rw [Option.some.inj heq]

/-- If only requests are repeated that leave the service as it is, the history of the calls is one
of the service in which each call is found once at most, and one that has returned a response is
found between its call and its return. -/
theorem calls_once (hreads : RepeatsReads go java strict c M) {nowMs : ℕ}
    (hs : Reaches go java strict c respond (Cluster.init nowMs) s)
    (hst : Reaches go java strict c respond s t) :
    M.Explains (t.history c) ∧ ((t.history c).filterMap fun e => e.origin.map Prod.fst).Nodup ∧
      ∀ k res, (operations go java strict respond M).returned t k res → k ∉ s.begun →
        ∃ pre e post, t.history c = pre ++ e :: post ∧
          s.log.entries.filter (t.keeps c) <+: pre ∧ e.origin = some k ∧
            (operations go java strict respond M).fits res e.request e.response := by
  obtain ⟨ht, hgrow, -⟩ := hst.grows hs.tracked
  refine ⟨ht.explains_history hreads, ht.once_history, fun k res hreturned hfresh => ?_⟩
  obtain ⟨pre, e, post, hlog, hlen, hk, hfits⟩ :=
    View.takesEffect_of_accounts hs.tracked.accounts ht.accounts hgrow hreturned hfresh
  have hlog' : t.log.entries = pre ++ e :: post := hlog
  have hprefix : s.log.entries <+: pre := by
    refine List.prefix_of_prefix_length_le hgrow ?_ hlen
    rw [hlog']
    exact List.prefix_append _ _
  have hkeeps : t.keeps c e = true := by
    obtain ⟨x, y, -, hdone, -⟩ := hreturned
    simp only [Cluster.keeps, hk]
    rw [List.any_eq_true.mpr ⟨_, hdone, decide_eq_true rfl⟩, Bool.true_or]
  refine ⟨pre.filter (t.keeps c), e, post.filter (t.keeps c), ?_, hprefix.filter _, hk, hfits⟩
  rw [Cluster.history, hlog', List.filter_append, List.filter_cons_of_pos hkeeps]

/-- A value that is read twice, because the first attempt ran out of time, is found in the history
once, at the attempt that was answered. -/
theorem calls_once_get :
    ∃ t : Cluster Http.constant, t.log.origins = [(0, 1), (0, 0)] ∧
      Http.constant.Explains (t.history defaults) ∧
        ((t.history defaults).filterMap fun e => e.origin.map Prod.fst).Nodup ∧
          ∃ e ∈ t.history defaults, e.origin = some (0, 1) := by
  let respond : Wire.Request → Wire.ServerResponse → Http.Response :=
    fun _ _ => ⟨200, "OK", "", none⟩
  have hreads : RepeatsReads latin latin.toAlphabet false defaults Http.constant :=
    fun _ _ _ _ _ _ _ => rfl
  have hsend : Http.send latin latin.toAlphabet false .node (.get "k" none) =
      some ⟨.get, "/key/k", none, none⟩ := rfl
  have hread : (⟨.get, "/key/k", none, none⟩ : Http.HttpRequest).read =
      some (.get "k" none) := rfl
  have hstatus : isRetryableStatus (respond (.get "k" none)
      (Http.constant.handle Http.constant.init (.get "k" none)).2).status = false := rfl
  have hretries : 0 < retries defaults ⟨.get, "/key/k", none, none⟩ := by decide +kernel
  obtain ⟨s, t, hs, hst, hcalls, hdone, -, hcalls', hdone', horigins⟩ :=
    exists_late hsend hread hstatus hretries 0
  obtain ⟨hexplains, hnodup, heffect⟩ := calls_once hreads ⟨[], Run.nil _⟩
    (Reachable.trans hs hst)
  refine ⟨t, horigins, hexplains, hnodup, ?_⟩
  have hcall : t.calls[0]? = some (.get "k" none, ⟨.get, "/key/k", none, none⟩) := by
    rw [hcalls', hcalls]
    rfl
  have hanswered : ((0, 1), ⟨200, "OK", "", none⟩) ∈ t.done := by
    rw [hdone', hdone]
    exact List.mem_singleton_self _
  obtain ⟨pre, e, post, hhistory, -, horigin, -⟩ :=
    heffect (0, 1) (_, _) ⟨_, _, hcall, hanswered, rfl⟩ List.not_mem_nil
  refine ⟨e, ?_, horigin⟩
  rw [hhistory]
  exact List.mem_append_right _ List.mem_cons_self

end Once

end NodeHttp

end DittoClient
