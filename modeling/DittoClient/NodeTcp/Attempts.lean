import DittoClient.NodeTcp.Order
import DittoClient.NodeTcp.Pending

/-!
# One attempt at a time

If `connect` is called once, the client has a timer pending, or an attempt to connect under way,
or a socket stored, and never two of them (`Link.Single`). In contrast to `Lifecycle`, nothing is
assumed about the order in which the sockets that were given up emit their events.
-/

namespace DittoClient

namespace NodeTcp

open DittoClient.Transition

namespace Link

/-- `connect` was not called yet. -/
structure Unused (l : Link) : Prop where
  socket : l.socket = none
  timer : l.reconnectTimer = false
  tasks : ∀ k, (l.tasks k).pc = .done none

/-- A timer, an attempt and a stored socket exclude each other. A run whose socket connects waits
for it, and no attempt begins until a run that is connected goes on. -/
structure Single (l : Link) : Prop where
  timer : l.reconnectTimer = true → l.socket = none ∧ ∀ k, (l.tasks k).pc.attempting = false
  stored : l.socket.isSome = true → ∀ k, (l.tasks k).pc.attempting = false
  unique : ∀ j k, (l.tasks j).pc.attempting = true → (l.tasks k).pc.attempting = true → j = k
  dial : ∀ k i, (l.tasks k).pc = .connecting i → (l.socks i).task = k ∧
    ((l.socks i).phase = .connecting ∨ ∃ e, (l.socks i).phase = .destroyed e)
  live : ∀ i, (l.socks i).phase = .connecting → (l.tasks (l.socks i).task).pc = .connecting i
  noticed : ∀ j k, (l.tasks j).pc = .connected → (l.tasks k).pc.attempting = false

variable {l l' : Link} {a : Action}

theorem Unused.not_attempting (h : l.Unused) (k : ℕ) : (l.tasks k).pc.attempting = false := by
  rw [h.tasks k]
  rfl

/-- Settling a connection promise does not depend on whether a connection is stored. -/
theorem lost_settled (l : Link) (retry : Bool) (i : ℕ) (pc : Pc) :
    (l.lost retry).settled i pc = (l.settled i pc).lost retry := by
  by_cases h : (l.tasks (l.socks i).task).pc = .connecting i
  · have hself : l.settled i pc = l.setPc (l.socks i).task pc := if_pos h
    rw [hself]
    exact if_pos h
  · have hself : l.settled i pc = l := if_neg h
    rw [hself]
    exact if_neg h

theorem stored_settled (l : Link) (socket : Option ℕ) (i : ℕ) (pc : Pc) :
    ({ l with socket := socket }.settled i pc) = { l.settled i pc with socket := socket } := by
  by_cases h : (l.tasks (l.socks i).task).pc = .connecting i
  · have hself : l.settled i pc = l.setPc (l.socks i).task pc := if_pos h
    rw [hself]
    exact if_pos h
  · have hself : l.settled i pc = l := if_neg h
    rw [hself]
    exact if_neg h

namespace Single

/-- What an attempt excludes. -/
theorem of_attempting (h : l.Single) {k : ℕ} (hk : (l.tasks k).pc.attempting = true) :
    l.reconnectTimer = false ∧ l.socket = none ∧ ∀ j, (l.tasks j).pc ≠ .connected := by
  have hnot : ∀ {p : Prop}, (l.tasks k).pc.attempting = false → p := fun hfalse => by
    rw [hk] at hfalse
    cases hfalse
  refine ⟨?_, ?_, fun j hj => hnot (h.noticed j k hj)⟩
  · cases htimer : l.reconnectTimer with
    | false => rfl
    | true => exact hnot ((h.timer htimer).2 k)
  · rcases Option.eq_none_or_eq_some l.socket with hnone | ⟨i, hi⟩
    · exact hnone
    · exact hnot (h.stored (by rw [hi]; rfl) k)

/-- No socket connects without an attempt. -/
theorem not_connecting (h : l.Single) (hnone : ∀ k, (l.tasks k).pc.attempting = false) (i : ℕ) :
    (l.socks i).phase ≠ .connecting := by
  intro hphase
  have hfalse := hnone (l.socks i).task
  rw [h.live i hphase] at hfalse
  cases hfalse

/-- A run that is not connecting goes on. -/
theorem setPc (h : l.Single) {k : ℕ} {pc : Pc} (hto : pc.attempting = false)
    (hconn : pc ≠ .connected) (hfrom : ∀ i, (l.tasks k).pc ≠ .connecting i) :
    (l.setPc k pc).Single := by
  have hpc : ∀ j, ((l.setPc k pc).tasks j).pc = if j = k then pc else (l.tasks j).pc := by
    intro j
    by_cases hj : j = k
    · simp [Link.setPc, hj]
    · simp [Link.setPc, hj]
  have hattempt : ∀ {j : ℕ}, ((l.setPc k pc).tasks j).pc.attempting = true →
      (l.tasks j).pc.attempting = true := by
    intro j hj
    rw [hpc] at hj
    split at hj
    · rw [hto] at hj
      cases hj
    · exact hj
  have hnot : ∀ j, (l.tasks j).pc.attempting = false →
      ((l.setPc k pc).tasks j).pc.attempting = false := by
    intro j hj
    rw [hpc]
    split
    · exact hto
    · exact hj
  refine ⟨fun ht => ⟨(h.timer ht).1, fun j => hnot j ((h.timer ht).2 j)⟩,
    fun hs j => hnot j (h.stored hs j), fun i j hi hj => h.unique i j (hattempt hi) (hattempt hj),
    fun j i hj => ?_, fun i hi => ?_, fun i j hi => ?_⟩
  · rw [hpc] at hj
    split at hj
    · rw [hj] at hto
      cases hto
    · exact h.dial j i hj
  · have hold := h.live i hi
    change ((l.setPc k pc).tasks (l.socks i).task).pc = .connecting i
    rw [hpc]
    split
    · next hk => exact absurd (hk ▸ hold) (hfrom i)
    · exact hold
  · rw [hpc] at hi
    split at hi
    · exact absurd hi hconn
    · exact hnot j (h.noticed i j hi)

/-- A run that has begun is the only one that may attempt to connect. -/
theorem begun (hsocket : l.socket = none) (htimer : l.reconnectTimer = false)
    (hnone : ∀ k, (l.tasks k).pc.attempting = false) (hconn : ∀ k, (l.tasks k).pc ≠ .connected)
    {n : ℕ} {x : Task} (hx : x.pc ≠ .connected) (socks : ℕ → Sock) (m q : ℕ)
    (hdial : ∀ i, x.pc = .connecting i → (socks i).task = n ∧ (socks i).phase = .connecting)
    (hlive : ∀ i, (socks i).phase = .connecting → x.pc = .connecting i ∧ (socks i).task = n) :
    ({ l with
      socks := socks
      nextSock := m
      tasks := Function.update l.tasks n x
      nextTask := q } : Link).Single := by
  have hpc : ∀ k, (Function.update l.tasks n x k).pc = if k = n then x.pc else (l.tasks k).pc := by
    intro k
    by_cases hk : k = n
    · simp [hk]
    · simp [hk]
  have heq : ∀ k, (Function.update l.tasks n x k).pc.attempting = true → k = n := by
    intro k hk
    rw [hpc] at hk
    split at hk
    · assumption
    · rw [hnone k] at hk
      cases hk
  refine ⟨fun ht => ?_, fun hs => ?_, fun j k hj hk => (heq j hj).trans (heq k hk).symm,
    fun k i hk => ?_, fun i hi => ?_, fun j k hj => ?_⟩
  · rw [show l.reconnectTimer = true from ht] at htimer
    cases htimer
  · have hsome : l.socket.isSome = true := hs
    rw [hsocket] at hsome
    cases hsome
  · have hk' : (Function.update l.tasks n x k).pc = .connecting i := hk
    rw [hpc] at hk'
    split at hk'
    · next hkn =>
        obtain ⟨htask, hphase⟩ := hdial i hk'
        exact ⟨htask.trans hkn.symm, Or.inl hphase⟩
    · have hfalse := hnone k
      rw [hk'] at hfalse
      cases hfalse
  · obtain ⟨hx', htask⟩ := hlive i hi
    change (Function.update l.tasks n x (socks i).task).pc = .connecting i
    rw [hpc, htask, if_pos rfl, hx']
  · have hj' : (Function.update l.tasks n x j).pc = .connected := hj
    rw [hpc] at hj'
    split at hj'
    · exact absurd hj' hx
    · exact absurd hj' (hconn j)

/-- A run begins when there is no timer, no attempt, no stored socket, and no run that has still
to go on. -/
theorem dialed (h : l.Single) (hsocket : l.socket = none) (htimer : l.reconnectTimer = false)
    (hnone : ∀ k, (l.tasks k).pc.attempting = false) (hconn : ∀ k, (l.tasks k).pc ≠ .connected)
    (created : Bool) : (l.dialed created).Single := by
  have hnot : ∀ i, (l.socks i).phase = .connecting → False := fun i hi =>
    h.not_connecting hnone i hi
  unfold Link.dialed
  split
  · exact Single.begun hsocket htimer hnone hconn (by simp) l.socks l.nextSock _
      (fun i hi => by cases hi) fun i hi => (hnot i hi).elim
  · split
    · refine Single.begun hsocket htimer hnone hconn (by simp) _ _ _ (fun i hi => ?_) fun i hi => ?_
      · cases hi
        simp
      · by_cases hnew : i = l.nextSock
        · simp [hnew]
        · rw [Function.update_of_ne hnew] at hi
          exact (hnot i hi).elim
    · exact Single.begun hsocket htimer hnone hconn (by simp) l.socks l.nextSock _
        (fun i hi => by cases hi) fun i hi => (hnot i hi).elim

/-- The connection is lost, with a timer for the next attempt only where a socket was stored. -/
theorem lost (h : l.Single) {retry : Bool}
    (hretry : retry = true → ∀ k, (l.tasks k).pc.attempting = false) : (l.lost retry).Single := by
  refine ⟨fun ht => ⟨rfl, ?_⟩, fun hs => (by cases hs), h.unique, h.dial, h.live, h.noticed⟩
  rcases (Bool.or_eq_true _ _).mp ht with htimer | hr
  · exact (h.timer htimer).2
  · exact hretry hr

theorem closed (h : l.Single) : l.closed.Single := by
  refine ⟨fun ht => (by cases ht), fun hs => (by cases hs), h.unique, fun k i hk => ?_,
    fun i hi => ?_, h.noticed⟩
  · rw [closed_task, closed_phase]
    exact h.dial k i hk
  · rw [closed_phase] at hi
    rw [closed_task]
    exact h.live i hi

/-- A socket that does not connect any more. -/
theorem setPhase (h : l.Single) {i : ℕ} {ph : Phase} (hph : ph ≠ .connecting)
    (hdial : ∀ k, (l.tasks k).pc = .connecting i → ∃ e, ph = .destroyed e) :
    (l.setPhase i ph).Single := by
  refine ⟨h.timer, h.stored, h.unique, fun k j hk => ?_, fun j hj => ?_, h.noticed⟩
  · rw [setPhase_task, setPhase_phase]
    refine ⟨(h.dial k j hk).1, ?_⟩
    split
    · next hji => exact Or.inr (hdial k (hji ▸ hk))
    · exact (h.dial k j hk).2
  · rw [setPhase_phase] at hj
    rw [setPhase_task]
    split at hj
    · exact absurd hj hph
    · exact h.live j hj

/-- Where the runs stand when a connection promise is settled. -/
theorem answered_pc (h : l.Single) (i : ℕ) (ph : Phase) (pc : Pc) (k : ℕ) :
    (((l.setPhase i ph).settled i pc).tasks k).pc =
      if (l.tasks k).pc = .connecting i then pc else (l.tasks k).pc := by
  unfold Link.settled
  rw [setPhase_task]
  by_cases hk : (l.tasks k).pc = .connecting i
  · obtain ⟨htask, -⟩ := h.dial k i hk
    have hpc : ((l.setPhase i ph).tasks (l.socks i).task).pc = .connecting i := htask ▸ hk
    rw [if_pos hpc, if_pos hk, Link.setPc, htask]
    simp
  · rw [if_neg hk]
    split
    · next hpc =>
        have hne : k ≠ (l.socks i).task := fun he => hk (he ▸ hpc)
        simp [Link.setPc, Link.setPhase, hne]
    · rfl

/-- A socket does not connect any more, and the connection promise of its run is settled. -/
theorem answered (h : l.Single) (i : ℕ) {ph : Phase} (hph : ph ≠ .connecting) (pc : Pc)
    (hpc : ∀ j, pc ≠ .connecting j) : ((l.setPhase i ph).settled i pc).Single := by
  have hat := h.answered_pc i ph pc
  have hattempt : ∀ {k : ℕ}, (((l.setPhase i ph).settled i pc).tasks k).pc.attempting = true →
      (l.tasks k).pc.attempting = true := by
    intro k hk
    rw [hat] at hk
    split at hk
    · next hfrom =>
        rw [hfrom]
        rfl
    · exact hk
  have hnot : ∀ k, (l.tasks k).pc.attempting = false →
      (((l.setPhase i ph).settled i pc).tasks k).pc.attempting = false := fun k hk =>
    eq_false_of_ne_true fun htrue => by
      rw [hattempt htrue] at hk
      cases hk
  have hsettled := (l.setPhase i ph).settled_eq i pc
  refine ⟨fun ht => ?_, fun hs k => ?_, fun j k hj hk => h.unique j k (hattempt hj) (hattempt hk),
    fun k j hk => ?_, fun j hj => ?_, fun j k hj => ?_⟩
  · rw [hsettled] at ht ⊢
    exact ⟨(h.timer ht).1, fun k => hnot k ((h.timer ht).2 k)⟩
  · rw [hsettled] at hs
    exact hnot k (h.stored hs k)
  · rw [hat] at hk
    rw [settled_socks, setPhase_task, setPhase_phase]
    split at hk
    · exact absurd hk (hpc j)
    · next hfrom =>
        have hne : j ≠ i := fun hji => hfrom (hji ▸ hk)
        rw [if_neg hne]
        exact h.dial k j hk
  · rw [settled_socks, setPhase_phase] at hj
    rw [settled_socks, setPhase_task, hat]
    split at hj
    · exact absurd hj hph
    · next hji =>
        have hold := h.live j hj
        rw [if_neg fun he => hji (by simpa using hold.symm.trans he), hold]
  · rw [hat] at hj
    split at hj
    · next hfrom =>
        refine eq_false_of_ne_true fun hk => ?_
        have hjk := h.unique j k (by rw [hfrom]; rfl) (hattempt hk)
        rw [hat, ← hjk, if_pos hfrom, hj] at hk
        cases hk
    · exact hnot k (h.noticed j k hj)

/-- The client goes on with one attempt at a time, if `connect` is called on an unused client, a
timer fires when every run that is connected has gone on, and a resumption does not connect. -/
theorem step (h : l.Single) (hs : Link.Step l a l')
    (hcall : ∀ created, a = .connect created → l.destroyed = false → l.Unused)
    (hfire : ∀ created, a = .reconnectTimer created → ∀ k, (l.tasks k).pc ≠ .connected)
    (hresume : ∀ k, a = .resume k → (l'.tasks k).pc ≠ .connected) : l'.Single := by
  have hpcs : ∀ (m : Link) (k : ℕ) (pc : Pc), ((m.setPc k pc).tasks k).pc = pc := by
    intro m k pc
    simp [Link.setPc]
  cases hs with
  | same => exact h
  | connect created hdestroyed hsocket =>
      have hunused := hcall created rfl hdestroyed
      exact h.dialed hsocket hunused.timer hunused.not_attempting
        (fun k => by rw [hunused.tasks k]; simp) created
  | close => exact h.closed
  | @goOn k pc hfrom hto =>
      refine h.setPc hto (fun he => hresume k rfl (he ▸ hpcs l k pc)) fun i hi => ?_
      rw [hi] at hfrom
      cases hfrom
  | @failed k retry hpc hretry =>
      have hattempt : (l.tasks k).pc.attempting = true := by
        rw [hpc]
        rfl
      have hdone : (l.setPc k (.done none)).Single :=
        h.setPc rfl (by simp) fun i hi => by cases hpc.symm.trans hi
      refine hdone.lost fun _ j => ?_
      by_cases hj : j = k
      · rw [hj, hpcs]
        rfl
      · refine eq_false_of_ne_true fun hat => hj (h.unique j k ?_ hattempt)
        simpa [Link.setPc, hj] using hat
  | @refused k w e hpc =>
      exact h.closed.setPc rfl (by simp) fun i hi => by cases hpc.symm.trans hi
  | @sockConnected i hphase =>
      have hattempt : (l.tasks (l.socks i).task).pc.attempting = true := by
        rw [h.live i hphase]
        rfl
      obtain ⟨htimer, -, -⟩ := h.of_attempting hattempt
      have hanswered := h.answered i (by simp : Phase.connected ≠ .connecting) .connected (by simp)
      have hconn : (((l.setPhase i .connected).settled i .connected).tasks
          (l.socks i).task).pc = .connected := by
        rw [h.answered_pc, if_pos (h.live i hphase)]
      have hnone := fun k => hanswered.noticed _ k hconn
      rw [stored_settled]
      refine ⟨fun ht => ?_, fun _ => hnone, hanswered.unique, hanswered.dial, hanswered.live,
        hanswered.noticed⟩
      have hfalse : ((l.setPhase i .connected).settled i .connected).reconnectTimer = false := by
        rw [settled_eq]
        exact htimer
      rw [show ((l.setPhase i .connected).settled i .connected).reconnectTimer = true from ht]
        at hfalse
      cases hfalse
  | @sockError i e retry hphase hretry =>
      have hanswered := h.answered i (by simp : Phase.errored ≠ .connecting) .failed (by simp)
      rw [lost_settled]
      refine hanswered.lost fun hr => hanswered.stored ?_
      rw [settled_eq]
      exact (hretry hr).2.2
  | @sockClose i retry hphase hretry =>
      have hclosed := h.setPhase (by simp : Phase.closed ≠ .connecting) (i := i) fun k hk => ?_
      · exact hclosed.lost fun hr => h.stored (hretry hr).2.2
      · rcases (h.dial k i hk).2 with hp | ⟨e, hp⟩
        · rw [hp] at hphase
          rcases hphase with hphase | hphase
          · cases hphase
          · cases hphase
        · rw [hp] at hphase
          rcases hphase with hphase | hphase
          · cases hphase
          · cases hphase
  | destroySock a e hphase => exact h.setPhase (by simp) fun k _ => ⟨e, rfl⟩
  | reconnectTimer created htimer =>
      obtain ⟨hsocket, hnone⟩ := h.timer htimer
      have hfired : ({ l with reconnectTimer := false, reconnecting := false } : Link).Single :=
        ⟨fun ht => (by cases ht), h.stored, h.unique, h.dial, h.live, h.noticed⟩
      exact hfired.dialed hsocket rfl hnone (hfire created rfl) created

end Single

/-- A client that is unused stays so until `connect` is called. -/
theorem Step.unused (hs : Link.Step l a l') (h : l.Unused) (hsingle : l.Single)
    (hcall : ∀ created, a ≠ .connect created)
    (hresume : ∀ k, a = .resume k → (l.tasks k).pc ≠ .done none) : l'.Unused := by
  have hnot : ∀ {p : Prop} {k : ℕ}, a = .resume k → p := fun {p k} ha =>
    absurd (h.tasks k) (hresume k ha)
  have hlost : ∀ {retry : Bool}, (retry = true → l.destroyed = false ∧ l.reconnecting = false ∧
      l.socket.isSome = true) → retry = false := by
    intro retry hretry
    cases retry with
    | false => rfl
    | true =>
        have hsome := (hretry rfl).2.2
        rw [h.socket] at hsome
        cases hsome
  cases hs with
  | same => exact h
  | connect created _ _ => exact absurd rfl (hcall created)
  | close => exact ⟨rfl, rfl, h.tasks⟩
  | goOn _ _ => exact hnot rfl
  | failed _ _ => exact hnot rfl
  | refused _ _ => exact hnot rfl
  | @sockConnected i hphase =>
      exact absurd hphase (hsingle.not_connecting h.not_attempting i)
  | @sockError i e retry _ hretry =>
      rw [lost_settled, hlost hretry]
      have hnone : ∀ k, ((l.setPhase i .errored).tasks k).pc.attempting = false := h.not_attempting
      rw [Lifecycle.settled_of_run hnone]
      exact ⟨rfl, by simp [lost, setPhase, h.timer], h.tasks⟩
  | sockClose _ hretry =>
      rw [hlost hretry]
      exact ⟨rfl, by simp [lost, setPhase, h.timer], h.tasks⟩
  | destroySock a e _ => exact ⟨h.socket, h.timer, h.tasks⟩
  | reconnectTimer created htimer =>
      rw [h.timer] at htimer
      cases htimer

/-- A run is connected by the event of its socket, and at no other time. -/
theorem Step.connected (hs : Link.Step l a l')
    (hresume : ∀ k, a = .resume k → (l'.tasks k).pc ≠ .connected) {k : ℕ}
    (hk : (l'.tasks k).pc = .connected) :
    (l.tasks k).pc = .connected ∨ ∃ i, a = .sockConnected i := by
  cases hs.moves k with
  | stays hpc => exact Or.inl (hpc.symm.trans hk)
  | resumed ha _ => exact absurd hk (hresume k ha)
  | begun _ _ _ hpc =>
      rw [hpc] at hk
      unfold firstPc at hk
      split at hk
      · cases hk
      · split at hk
        · cases hk
        · cases hk
  | connected ha _ _ => exact Or.inr ⟨_, ha⟩
  | failed _ _ hpc => cases hpc.symm.trans hk

/-- A run that is under way and does not connect stays where it is until it is resumed. -/
theorem Step.pc_stays (hs : Link.Step l a l')
    (hbegun : ∀ k, l.nextTask ≤ k → (l.tasks k).pc = .done none) {k : ℕ}
    (hunder : (l.tasks k).pc.isDone = false) (hopen : ∀ i, (l.tasks k).pc ≠ .connecting i)
    (hresume : a ≠ .resume k) : (l'.tasks k).pc = (l.tasks k).pc := by
  cases hs.moves k with
  | stays hpc => exact hpc
  | resumed ha _ => exact absurd ha hresume
  | begun hnew _ _ _ =>
      rw [hbegun k hnew.ge] at hunder
      cases hunder
  | connected _ hfrom _ => exact absurd hfrom (hopen _)
  | failed _ hfrom _ => exact absurd hfrom (hopen _)

/-- An attempt is one from before, or begins with a call or with the timer. -/
theorem Step.attempting_of (hs : Link.Step l a l')
    (hresume : ∀ k, a = .resume k → (l'.tasks k).pc.attempting = false) {k : ℕ}
    (hk : (l'.tasks k).pc.attempting = true) :
    ((l.tasks k).pc.attempting = true ∧ a ≠ .resume k) ∨ (∃ created, a = .connect created) ∨
      l.reconnectTimer = true ∧ ∃ created, a = .reconnectTimer created := by
  have hother : a ≠ .resume k := fun he => by
    rw [hresume k he] at hk
    cases hk
  cases hs.moves k with
  | stays hpc => exact Or.inl ⟨hpc ▸ hk, hother⟩
  | resumed ha _ => exact absurd ha hother
  | begun _ _ ha _ =>
      exact Or.inr (ha.imp (fun hcall => ⟨_, hcall⟩) fun htimer => ⟨htimer.1, _, htimer.2⟩)
  | connected _ hfrom _ => exact Or.inl ⟨by rw [hfrom]; rfl, hother⟩
  | failed _ hfrom _ => exact Or.inl ⟨by rw [hfrom]; rfl, hother⟩

end Link

/-- A run that is resumed does not attempt to connect, and goes on if it is connected. -/
theorem resume_rests (opts : Options) {s t : State} {k : ℕ} (hr : resume opts k s = some t) :
    (t.tasks k).pc.attempting = false ∧ (t.tasks k).pc ≠ .connected := by
  have hset : ∀ {u : State} {pc : Pc}, pc.attempting = false → pc ≠ .connected →
      ((u.setPc k pc).tasks k).pc.attempting = false ∧ ((u.setPc k pc).tasks k).pc ≠ .connected := by
    intro u pc hattempt hpc
    simpa [State.setPc] using ⟨hattempt, hpc⟩
  have hlate : ∀ (pos n : ℕ) (u : State),
      ((reRegisterWatches opts k pos { u with reconnectAttempts := n }).tasks k).pc.attempting =
          false ∧
        ((reRegisterWatches opts k pos { u with reconnectAttempts := n }).tasks k).pc ≠
          .connected := by
    intro pos n u
    rcases reRegisterWatches_late opts k pos n u with hpc | ⟨p, hpc, -⟩
    · rw [hpc]
      exact ⟨rfl, by simp⟩
    · rw [hpc]
      exact ⟨rfl, by simp⟩
  unfold resume at hr
  split at hr
  · cases hr
  · cases hr
    unfold connected
    dsimp only
    split
    · exact hlate 0 0 s
    · refine hset ?_ ?_
      · split
        · rfl
        · rfl
      · split
        · simp
        · simp
  · cases hr
    exact hset rfl (by simp)
  · split at hr
    · cases hr
    · cases hr
      exact hset rfl (by simp)
    · cases hr
      unfold authenticated
      split
      · exact hlate 0 s.reconnectAttempts s
      · exact hset rfl (by simp)
      · exact hset rfl (by simp)
  · cases hr
    exact hset rfl (by simp)
  · cases hr
    exact hset rfl (by simp)
  · next pos w _ =>
      split at hr
      · cases hr
      · cases hr
        exact hset rfl (by simp)
      · cases hr
        exact hlate pos s.reconnectAttempts s
  · cases hr
    exact hset rfl (by simp)
  · cases hr

end NodeTcp

end DittoClient
