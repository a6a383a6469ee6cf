import RemoteDevice.Lib.SlotTable
import RemoteDevice.Server.Requests

/-! All clients together: the table of descriptors beside the set that is registered with epoll,
and the replies to requests from any of them. -/

namespace RemoteDevice.Server
open CText
open SlotTable (occupied)

variable {σ : Type} {api : DeviceApi σ} {serverFd : Int} {d : σ} {s t : State σ} {a : Action}

def Pc.events : Pc → List Ready
  | .handling events | .executing _ _ events | .sending _ _ events => events
  | _ => []

@[simp] theorem resume_events (events : List Ready) : (resume events).events = events := by
  unfold resume
  split
  · next h => rw [h]; rfl
  · rfl

/-- The kernel reports each descriptor once, and only those in the set; a new descriptor is one
that is not open; `epoll_ctl` and `send` succeed. -/
def kernelOk (serverFd : Int) (s : State σ) : Action → Bool
  | .epollWait (some events) =>
    decide (events.map Ready.fd).Nodup && events.all fun e => e.fd = serverFd || e.fd ∈ s.epollFds
  | .accept (some fd) registered => 0 ≤ fd && fd ≠ serverFd && fd ∉ s.epollFds && registered
  | .send result => result = .sent
  | _ => true

def hasRoom (s : State σ) : Action → Bool
  | .accept (some _) _ => s.epollFds.length < maxClients
  | _ => true

/-! ## The table and the registered descriptors -/

structure Wired (serverFd : Int) (s : State σ) : Prop where
  size : s.clientFds.length = maxClients
  table : (occupied (-1) s.clientFds).Perm s.epollFds
  nodup : s.epollFds.Nodup
  clients : ∀ fd ∈ s.epollFds, fd ≠ -1 ∧ fd ≠ serverFd
  distinct : (s.pc.events.map Ready.fd).Nodup
  registered : ∀ e ∈ s.pc.events, e.fd = serverFd ∨ e.fd ∈ s.epollFds
  client : ∀ fd, s.pc.client = some fd → fd ∈ s.epollFds

theorem Wired.mem_clientFds (h : Wired serverFd s) {fd : Int} (hfd : fd ∈ s.epollFds) :
    fd ≠ -1 ∧ fd ∈ s.clientFds := by
  have hmem := SlotTable.mem_occupied.mp (h.table.mem_iff.mpr hfd)
  exact ⟨hmem.2, hmem.1⟩

theorem Wired.keep (h : Wired serverFd s) (htable : t.clientFds = s.clientFds)
    (hset : t.epollFds = s.epollFds) (hdistinct : (t.pc.events.map Ready.fd).Nodup)
    (hregistered : ∀ e ∈ t.pc.events, e.fd = serverFd ∨ e.fd ∈ s.epollFds)
    (hclient : ∀ fd, t.pc.client = some fd → fd ∈ s.epollFds) : Wired serverFd t where
  size := htable ▸ h.size
  table := by rw [htable, hset]; exact h.table
  nodup := hset ▸ h.nodup
  clients := hset ▸ h.clients
  distinct := hdistinct
  registered := hset ▸ hregistered
  client := hset ▸ hclient

theorem Wired.advance (h : Wired serverFd s) (htable : t.clientFds = s.clientFds)
    (hset : t.epollFds = s.epollFds) (hevents : t.pc.events <:+ s.pc.events)
    (hclient : ∀ fd, t.pc.client = some fd → fd ∈ s.epollFds) : Wired serverFd t :=
  h.keep htable hset (h.distinct.sublist (hevents.sublist.map _))
    (fun e he => h.registered e (hevents.subset he)) hclient

theorem Wired.accepted (h : Wired serverFd s) {e : Ready} {events : List Ready} {fd : Int}
    (hpc : s.pc = .handling (e :: events)) (hfd : 0 ≤ fd ∧ fd ≠ serverFd ∧ fd ∉ s.epollFds)
    (hroom : s.epollFds.length < maxClients) (hset : t.epollFds = fd :: s.epollFds)
    (htable : t.clientFds = addClient s.clientFds fd) (ht : t.pc = resume events) :
    Wired serverFd t := by
  have hne : fd ≠ -1 := fun he => absurd hfd.1 (by omega)
  -- as many slots are free as clients are missing to `MAX_CLIENTS`
  have hfree : -1 ∈ s.clientFds := by
    rw [SlotTable.free_iff, h.table.length_eq, h.size]
    exact hroom
  have hdistinct := h.distinct
  have hregistered := h.registered
  rw [hpc] at hdistinct hregistered
  constructor
  · rw [htable, addClient, List.length_replace]
    exact h.size
  · rw [htable, hset]
    exact (SlotTable.occupied_put hfree hne).trans (h.table.cons fd)
  · rw [hset]
    exact List.nodup_cons.mpr ⟨hfd.2.2, h.nodup⟩
  · intro f hf
    rw [hset] at hf
    rcases List.mem_cons.mp hf with rfl | hf
    · exact ⟨hne, hfd.2.1⟩
    · exact h.clients f hf
  · rw [ht, resume_events]
    exact hdistinct.of_cons
  · intro e' he'
    rw [ht, resume_events] at he'
    rw [hset]
    exact (hregistered e' (List.mem_cons_of_mem _ he')).imp_right (List.mem_cons_of_mem _)
  · intro f hf
    rw [ht, resume_client] at hf
    cases hf

theorem Wired.dropped (h : Wired serverFd s) {e : Ready} {events : List Ready}
    (hpc : s.pc = .handling (e :: events)) (hfd : e.fd ≠ serverFd) :
    Wired serverFd (drop s e.fd events) := by
  have hdistinct := h.distinct
  have hregistered := h.registered
  rw [hpc] at hdistinct hregistered
  have hmem : e.fd ∈ s.epollFds := (hregistered e List.mem_cons_self).resolve_left hfd
  have hne := (h.clients _ hmem).1
  constructor
  · exact (List.length_replace ..).trans h.size
  · have hremove := SlotTable.occupied_remove (l := s.clientFds) hne
    have hperm := h.table.erase e.fd
    rw [← hremove] at hperm
    exact hperm
  · exact h.nodup.erase _
  · exact fun f hf => h.clients f (List.mem_of_mem_erase hf)
  · have hrest : (drop s e.fd events).pc.events = events := resume_events events
    rw [hrest]
    exact hdistinct.of_cons
  · intro e' he'
    have he' : e' ∈ events := by simpa [drop] using he'
    have hother : e'.fd ≠ e.fd := fun heq =>
      (List.nodup_cons.mp hdistinct).1 (heq ▸ List.mem_map_of_mem he')
    exact (hregistered e' (List.mem_cons_of_mem _ he')).imp_right
      (List.mem_erase_of_ne hother).mpr
  · intro f hf
    have hnone : (drop s e.fd events).pc.client = none := resume_client events
    rw [hnone] at hf
    cases hf

theorem wired_start (hfd : s.epollFds = []) (htable : s.clientFds = List.replicate maxClients (-1))
    (hpc : s.pc = .polling) : Wired serverFd s where
  size := by rw [htable, List.length_replicate]
  table := by rw [htable, hfd, SlotTable.occupied_replicate]
  nodup := by rw [hfd]; exact List.nodup_nil
  clients := by simp [hfd]
  distinct := by rw [hpc]; exact List.nodup_nil
  registered := by simp [hpc, Pc.events]
  client := by simp [hpc, Pc.client]

theorem Wired.step (h : Wired serverFd s) (hst : Server.step api serverFd s a = some t)
    (hkernel : kernelOk serverFd s a = true) (hroom : hasRoom s a = true) : Wired serverFd t := by
  have hidle : ∀ {pc : Pc}, pc.client = none → ∀ fd, pc.client = some fd → fd ∈ s.epollFds := by
    intro pc hpc fd hfd
    rw [hpc] at hfd
    cases hfd
  have hrest : ∀ {e : Ready} {events : List Ready}, s.pc = .handling (e :: events) →
      events <:+ s.pc.events := by
    intro e events hpc
    rw [hpc]
    exact List.suffix_cons ..
  cases step_branch hst with
  | poll | waitFailed | leave | acceptFailed =>
    exact h.advance rfl rfl List.nil_suffix (hidle rfl)
  | ready events hpc =>
    simp only [kernelOk, Bool.and_eq_true, decide_eq_true_eq, List.all_eq_true,
      Bool.or_eq_true] at hkernel
    refine h.keep rfl rfl ?_ ?_ (hidle (resume_client _))
    · rw [resume_events]
      exact hkernel.1
    · rw [resume_events]
      exact hkernel.2
  | refused fd e events hpc | skipped e events hpc =>
    refine h.advance rfl rfl ?_ (hidle (resume_client _))
    rw [resume_events]
    exact hrest hpc
  | accepted fd e events hpc =>
    simp only [kernelOk, Bool.and_eq_true, decide_eq_true_eq] at hkernel
    obtain ⟨⟨⟨hpos, hserver⟩, hfresh⟩, -⟩ := hkernel
    have hlt : s.epollFds.length < maxClients := by simpa [hasRoom] using hroom
    exact h.accepted hpc ⟨hpos, hserver, hfresh⟩ hlt rfl rfl rfl
  | dropped result e events hpc hfd => exact h.dropped hpc hfd
  | received bytes e events hpc hfd =>
    refine h.advance rfl rfl (hrest hpc) fun fd hclient => ?_
    obtain rfl := Option.some.inj hclient
    -- a readable descriptor other than the listening one is a client's
    have hregistered := h.registered e (by rw [hpc]; exact List.mem_cons_self)
    exact hregistered.resolve_left hfd
  | executed fd bytes events hpc =>
    have hclient := h.client
    rw [hpc] at hclient
    refine h.advance rfl rfl ?_ hclient
    rw [hpc]
    exact List.suffix_rfl
  | sent result fd response events hpc hfd =>
    obtain rfl : result = .sent := by simpa [kernelOk] using hkernel
    refine h.advance rfl rfl ?_ (hidle (resume_client _))
    rw [hpc]
    exact (resume_events events).symm ▸ List.suffix_rfl
  | unsent result fd response events hpc =>
    refine h.advance rfl rfl ?_ (hidle (resume_client _))
    rw [resume_events, hpc]
    exact List.suffix_rfl
  | sigterm => exact h.advance rfl rfl List.suffix_rfl h.client

/-- A connection that is accepted while the table is full is registered, but not in the table. -/
theorem Wired.accept_without_room (h : Wired serverFd s) {fd : Int}
    (hst : Server.step api serverFd s (.accept (some fd) true) = some t)
    (hkernel : kernelOk serverFd s (.accept (some fd) true) = true)
    (hroom : hasRoom s (.accept (some fd) true) = false) :
    fd ∈ t.epollFds ∧ fd ∉ t.clientFds := by
  simp only [kernelOk, Bool.and_eq_true, decide_eq_true_eq] at hkernel
  obtain ⟨⟨⟨hpos, -⟩, hfresh⟩, -⟩ := hkernel
  have hfull : -1 ∉ s.clientFds := by
    rw [SlotTable.free_iff, h.table.length_eq, h.size]
    simpa [hasRoom] using hroom
  have habsent : fd ∉ s.clientFds := fun hmem =>
    hfresh (h.table.mem_iff.mp (SlotTable.mem_occupied.mpr ⟨hmem, by omega⟩))
  cases step_branch hst with
  | accepted fd e events hpc =>
    refine ⟨List.mem_cons_self, ?_⟩
    change fd ∉ addClient s.clientFds fd
    rw [addClient, SlotTable.put_of_full hfull]
    exact habsent

/-! ## Every request is answered -/

def Entry.isTraffic : Entry → Bool
  | .received _ _ | .executed _ _ | .sent _ _ => true
  | _ => false

def dialogue (log : List Entry) : List Entry := log.reverse.filter Entry.isTraffic

theorem dialogue_cons (e : Entry) (log : List Entry) :
    dialogue (e :: log) = dialogue log ++ if e.isTraffic then [e] else [] := by
  rw [dialogue, List.reverse_cons, List.filter_append, List.filter_cons]
  rfl

abbrev Exchange := Int × List UInt8 × CText

def transcript (xs : List Exchange) : List Entry := xs.flatMap fun x => exchange x.1 x.2

def Replies (api : DeviceApi σ) (d : σ) (xs : List Exchange) (device : σ) : Prop :=
  (execAll api (xs.map fun x => chunkCommand x.2.1)).run d = (xs.map (·.2.2), device)

inductive Answering (api : DeviceApi σ) (d : σ) (s : State σ) : Prop
  | between (xs : List Exchange) (hpc : s.pc.client = none) (hlog : dialogue s.log = transcript xs)
      (hrun : Replies api d xs s.device)
  | executing (xs : List Exchange) (fd : Int) (bytes : List UInt8) (events : List Ready)
      (hpc : s.pc = .executing fd bytes events)
      (hlog : dialogue s.log = transcript xs ++ [.received fd bytes])
      (hrun : Replies api d xs s.device)
  | sending (xs : List Exchange) (fd : Int) (bytes : List UInt8) (response : CText)
      (events : List Ready) (hpc : s.pc = .sending fd response events)
      (hlog : dialogue s.log =
        transcript xs ++ [.received fd bytes, .executed fd (chunkCommand bytes)])
      (hrun : Replies api d (xs ++ [(fd, bytes, response)]) s.device)

theorem Answering.quiet (h : Answering api d s)
    (hpc : t.pc = s.pc ∨ s.pc.client = none ∧ t.pc.client = none)
    (hlog : dialogue t.log = dialogue s.log) (hdevice : t.device = s.device) :
    Answering api d t := by
  cases h with
  | between xs hp hl hr =>
    refine .between xs ?_ (hlog.trans hl) (hdevice ▸ hr)
    rcases hpc with hpc | hpc
    · rwa [hpc]
    · exact hpc.2
  | executing xs fd bytes events hp hl hr =>
    rcases hpc with hpc | hpc
    · exact .executing xs fd bytes events (hpc.trans hp) (hlog.trans hl) (hdevice ▸ hr)
    · rw [hp] at hpc
      cases hpc.1
  | sending xs fd bytes response events hp hl hr =>
    rcases hpc with hpc | hpc
    · exact .sending xs fd bytes response events (hpc.trans hp) (hlog.trans hl) (hdevice ▸ hr)
    · rw [hp] at hpc
      cases hpc.1

theorem Answering.step (h : Answering api d s) (hw : Wired serverFd s)
    (hst : Server.step api serverFd s a = some t) : Answering api d t := by
  cases step_effect hst with
  | quiet hpc hlog _ hdevice => exact h.quiet hpc (by rw [hlog]) hdevice
  | accepted _ hpc hlog _ hdevice | closed _ hpc hlog _ hdevice =>
    refine h.quiet (.inr hpc) ?_ hdevice
    rw [hlog, dialogue_cons]
    exact List.append_nil _
  | received fd bytes events hpc hpc' hlog _ hdevice =>
    cases h with
    | executing _ _ _ _ hp | sending _ _ _ _ _ hp => rw [hp] at hpc; cases hpc
    | between xs hp hl hr =>
      refine .executing xs fd bytes events hpc' ?_ (hdevice ▸ hr)
      rw [hlog, dialogue_cons, hl]
      rfl
  | executed fd bytes events hpc ht =>
    cases h with
    | between _ hp | sending _ _ _ _ _ hp => rw [hpc] at hp; cases hp
    | executing xs f b es hp hl hr =>
      rw [hpc] at hp
      cases hp
      subst ht
      refine .sending xs fd bytes _ events rfl ?_ ?_
      · have hlogged : (exec api s fd bytes events).log = .logged fd _ _ ::
            .executed fd (chunkCommand bytes) :: s.log := rfl
        rw [hlogged, dialogue_cons, dialogue_cons, hl]
        simp [Entry.isTraffic]
      · unfold Replies
        rw [List.map_append, List.map_append]
        exact execAll_concat (chunkCommand bytes) hr
  | sent fd response events hpc hpc' hlog _ hdevice =>
    cases h with
    | between _ hp | executing _ _ _ _ hp => rw [hpc] at hp; cases hp
    | sending xs f bytes r es hp hl hr =>
      rw [hpc] at hp
      cases hp
      have hmem := hw.mem_clientFds (hw.client fd (by rw [hpc]; rfl))
      refine .between (xs ++ [(fd, bytes, response)]) hpc' ?_ (hdevice ▸ hr)
      rw [hlog, if_pos hmem, dialogue_cons, hl]
      simp [transcript, exchange, Entry.isTraffic]

/-- The table holds exactly the registered descriptors, each once, and every request from any of
them has been answered to it, apart from the one at hand. -/
structure Served (api : DeviceApi σ) (d : σ) (s : State σ) : Prop where
  table : (occupied (-1) s.clientFds).Perm s.epollFds
  nodup : s.epollFds.Nodup
  answering : Answering api d s

abbrev Operating (api : DeviceApi σ) (serverFd : Int) (d : σ) : State σ → Prop :=
  Runs.Reachable (· = { device := d })
    (Runs.guarded (fun s a => kernelOk serverFd s a = true) (Server.step api serverFd))

abbrev Uncrowded (api : DeviceApi σ) (serverFd : Int) (d : σ) : State σ → Prop :=
  Runs.Reachable (· = { device := d })
    (Runs.guarded (fun s a => (kernelOk serverFd s a && hasRoom s a) = true)
      (Server.step api serverFd))

theorem requests_answered (h : Uncrowded api serverFd d s) : Served api d s := by
  have hall : Wired serverFd s ∧ Answering api d s := by
    refine Runs.Reachable.invariant (P := fun s => Wired serverFd s ∧ Answering api d s) ?_
      (fun s a t hs hst => ?_) h
    · rintro s rfl
      exact ⟨wired_start rfl rfl rfl, .between [] rfl rfl rfl⟩
    · obtain ⟨hok, hst⟩ := Runs.guarded_eq_some.mp hst
      rw [Bool.and_eq_true] at hok
      exact ⟨hs.1.step hst hok.1 hok.2, hs.2.step hs.1 hst⟩
  exact ⟨hall.1.table, hall.1.nodup, hall.2⟩

def connectSteps (fd : Int) : List Action :=
  [.poll, .epollWait (some [⟨3, true⟩]), .accept (some fd) true]

def clientSteps (fd : Int) (chunk : List UInt8) : List Action :=
  [.poll, .epollWait (some [⟨fd, true⟩]), .recv (.data chunk), .exec, .send .sent]

theorem requests_answered_two : ∃ s : State Unit, Uncrowded quietApi 3 () s ∧
    Served quietApi () s ∧ s.epollFds = [5, 4] ∧ sentTo 5 s.log = [ascii "OK LED ON\n"] := by
  have hstart : Uncrowded quietApi 3 () { device := () } := .start rfl
  obtain ⟨s, hs, hchecks⟩ := hstart.exists_of_run
    (connectSteps 4 ++ connectSteps 5 ++ clientSteps 5 (ascii "LED ON\n"))
    (fun s => s.epollFds = [5, 4] ∧ sentTo 5 s.log = [ascii "OK LED ON\n"]) (by decide)
  exact ⟨s, hs, requests_answered hs, of_decide_eq_true hchecks⟩

/-- The last of 129 clients is registered but not in the table, and its request has no reply. -/
theorem late_client_unanswered : ∃ s : State Unit, Operating quietApi 3 () s ∧
    ¬ Served quietApi () s ∧ s.pc = .polling ∧ 132 ∈ s.epollFds ∧ 132 ∉ s.clientFds ∧
    receivedFrom 132 s.log = [ascii "LED ON\n"] ∧ sentTo 132 s.log = [] := by
  have hstart : Operating quietApi 3 () { device := () } := .start rfl
  obtain ⟨s, hs, hchecks⟩ := hstart.exists_of_run
    ((List.range 129).flatMap (fun k => connectSteps (4 + k)) ++
      clientSteps 132 (ascii "LED ON\n"))
    (fun s => s.pc = .polling ∧ 132 ∈ s.epollFds ∧ 132 ∉ s.clientFds ∧
      receivedFrom 132 s.log = [ascii "LED ON\n"] ∧ sentTo 132 s.log = []) (by decide +kernel)
  obtain ⟨hpc, hset, htable, hreceived, hsent⟩ := of_decide_eq_true hchecks
  refine ⟨s, hs, fun hserved => htable ?_, hpc, hset, htable, hreceived, hsent⟩
  exact (SlotTable.mem_occupied.mp (hserved.table.mem_iff.mpr hset)).1

end RemoteDevice.Server
