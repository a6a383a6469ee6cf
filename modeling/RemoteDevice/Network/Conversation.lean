import Mathlib.Data.List.Infix
import RemoteDevice.Network.Model

/-! What goes over the network: nothing is lost, doubled or mixed up, and the replies are those of one
sequence of commands in which the commands of every client come in its own order. -/

namespace RemoteDevice.Network
open CText Framing

variable {σ : Type} {api : DeviceApi σ} {serverFd : Int} {d : σ} {s t : State σ} {c c' : Connection}

/-! ## One connection -/

structure Sound (c : Connection) : Prop where
  toServer : c.client.sent.reverse.flatten = c.chunks.flatten ++ c.toServer
  toClient : c.replies.flatten = c.client.received.reverse.flatten ++ c.toClient
  accounted : Client.Accounted c.client
  shown : c.client.shown = c.client.received.map ofBuffer
  replies : ∀ r ∈ c.replies, IsReply r

theorem sound_start : Sound {} :=
  ⟨rfl, rfl, ⟨fun _ h => absurd h List.not_mem_nil, .inl rfl⟩, rfl, fun _ h => absurd h List.not_mem_nil⟩

theorem append_drop_of_prefix {l l' : List UInt8} (h : l <+: l') : l ++ l'.drop l.length = l' :=
  (List.prefix_iff_eq_append.mp h).symm ▸ rfl

theorem clientStep_sound {a : Client.Action} (h : Sound c) (hc : clientStep c a = some c') : Sound c' ∧
    c'.port = c.port ∧ c'.chunks = c.chunks ∧ c'.replies = c.replies := by
  obtain ⟨client, hclient, hc⟩ := Option.bind_eq_some_iff.mp hc
  have haccounted := h.accounted.step hclient
  -- a step that neither reads from the connection nor writes to it
  have hquiet : client.sent = c.client.sent → client.received = c.client.received →
      client.shown = c.client.shown → c' = { c with client } → Sound c' ∧
        c'.port = c.port ∧ c'.chunks = c.chunks ∧ c'.replies = c.replies := by
    rintro hsent hreceived hshown rfl
    refine ⟨⟨?_, ?_, haccounted, ?_, h.replies⟩, rfl, rfl, rfl⟩
    · rw [hsent]
      exact h.toServer
    · rw [hreceived]
      exact h.toClient
    · rw [hshown, hreceived]
      exact h.shown
  cases Client.step_effect hclient with
  | quiet a hfile hpieces hsent hreceived hshown hunsent ha =>
    cases a with
    | recv result =>
      cases result with
      | data bytes => cases ha
      | error | closed => exact hquiet hsent hreceived hshown (Option.some.inj hc).symm
    | send | fgets => cases ha
    | _ => exact hquiet hsent hreceived hshown (Option.some.inj hc).symm
  | received bytes hpc hbytes hfile hpieces hsent hreceived hshown =>
    obtain ⟨hpre, hc⟩ := Option.ite_none_right_eq_some.mp hc
    cases hc
    refine ⟨⟨?_, ?_, haccounted, ?_, h.replies⟩, rfl, rfl, rfl⟩
    · dsimp only
      rw [hsent]
      exact h.toServer
    · dsimp only
      rw [hreceived, List.reverse_cons, List.flatten_append, List.append_assoc, List.flatten_singleton,
        append_drop_of_prefix hpre]
      exact h.toClient
    · dsimp only
      rw [hshown, hreceived, h.shown]
      rfl
  | sent text hpc hfile hpieces hsent hreceived hshown =>
    cases hc
    refine ⟨⟨?_, ?_, haccounted, ?_, h.replies⟩, rfl, rfl, rfl⟩
    · dsimp only
      rw [hsent, List.reverse_cons, List.flatten_append, List.flatten_singleton, h.toServer,
        List.append_assoc]
      rfl
    · dsimp only
      rw [hreceived]
      exact h.toClient
    · dsimp only
      rw [hshown, hreceived]
      exact h.shown
  | typed reads piece hread hpieces hsent hreceived hshown =>
    exact hquiet hsent hreceived hshown (Option.some.inj hc).symm
  | ended reads line file hread hline hfile hpieces hsent hreceived hshown =>
    exact hquiet hsent hreceived hshown (Option.some.inj hc).symm
  | lost text hpc hfile hpieces hsent hreceived hshown =>
    exact hquiet hsent hreceived hshown (Option.some.inj hc).symm

/-! ## The server's descriptors -/

structure Linked (serverFd : Int) (s : State σ) : Prop where
  wired : Server.Wired serverFd s.server
  ports : ∀ fd, fd ∈ s.server.epollFds ↔ ∃ i, (s.connection i).port = .accepted fd
  unique : ∀ i j fd, (s.connection i).port = .accepted fd → (s.connection j).port = .accepted fd → i = j

theorem wired_send {result : Server.Send} {server server' : Server.State σ}
    (h : Server.Wired serverFd server)
    (hstep : Server.step api serverFd server (.send result) = some server') :
    Server.Wired serverFd server' := by
  have hidle : ∀ {pc : Server.Pc}, pc.client = none → ∀ fd, pc.client = some fd → fd ∈ server.epollFds := by
    intro pc hpc fd hfd
    cases hpc.symm.trans hfd
  cases Server.step_branch hstep with
  | sent result fd response events hpc hfd =>
    cases result with
    | sigpipe => exact h.advance rfl rfl List.nil_suffix (hidle rfl)
    | sent | failed =>
      refine h.advance rfl rfl ?_ (hidle (Server.resume_client _))
      rw [hpc]
      exact (Server.resume_events events).symm ▸ List.suffix_rfl
  | unsent result fd response events hpc =>
    refine h.advance rfl rfl ?_ (hidle (Server.resume_client _))
    rw [hpc]
    exact (Server.resume_events events).symm ▸ List.suffix_rfl

theorem recv_data {bytes : List UInt8} {server server' : Server.State σ}
    (h : Server.step api serverFd server (.recv (.data bytes)) = some server') :
    ∃ e events, server.pc = .handling (e :: events) ∧ server' = { server with
      pc := .executing e.fd bytes events
      log := .received e.fd bytes :: server.log } := by
  simp only [Server.step] at h
  split at h
  case h_2 => cases h
  next e events hpc =>
  split at h
  case isFalse => cases h
  obtain ⟨-, h⟩ := Option.ite_none_right_eq_some.mp h
  cases h
  exact ⟨e, events, hpc, rfl⟩

theorem send_answered {result : Server.Send} {server server' : Server.State σ}
    (h : Server.step api serverFd server (.send result) = some server') :
    server'.pc.client = none ∧ server'.device = server.device := by
  cases Server.step_branch h with
  | sent result fd response events =>
    cases result with
    | sigpipe => exact ⟨rfl, rfl⟩
    | sent | failed => exact ⟨Server.resume_client events, rfl⟩
  | unsent result fd response events => exact ⟨Server.resume_client events, rfl⟩

inductive LocalEffect (api : DeviceApi σ) (server server' : Server.State σ) : Prop
  | quiet (hpc : server'.pc = server.pc ∨ server.pc.client = none ∧ server'.pc.client = none)
      (hdevice : server'.device = server.device) (hfds : server'.epollFds = server.epollFds)
  | executed (fd : Int) (bytes : List UInt8) (events : List Server.Ready)
      (hpc : server.pc = .executing fd bytes events) (hserver : server' = Server.exec api server fd bytes events)

theorem local_effect {a : Server.Action} {server server' : Server.State σ} (hlocal : isLocal a = true)
    (h : Server.step api serverFd server a = some server') : LocalEffect api server server' := by
  have hnone : ∀ {pc : Server.Pc}, server.pc = pc → pc.client = none → server.pc.client = none :=
    fun hpc hclient => (congrArg Server.Pc.client hpc).trans hclient
  cases Server.step_branch h with
  | poll hpc | leave hpc | waitFailed hpc | acceptFailed _ _ _ hpc =>
    exact .quiet (.inr ⟨hnone hpc rfl, rfl⟩) rfl rfl
  | ready events hpc | skipped _ events hpc =>
    exact .quiet (.inr ⟨hnone hpc rfl, Server.resume_client events⟩) rfl rfl
  | executed fd bytes events hpc => exact .executed fd bytes events hpc rfl
  | sigterm => exact .quiet (.inl rfl) rfl rfl
  | refused | accepted | dropped | received | sent | unsent => cases hlocal

theorem Linked.keep (h : Linked serverFd s) (hwired : Server.Wired serverFd t.server)
    (hfds : t.server.epollFds = s.server.epollFds)
    (hports : ∀ i fd, (t.connection i).port = .accepted fd ↔ (s.connection i).port = .accepted fd) :
    Linked serverFd t where
  wired := hwired
  ports := fun fd => by
    rw [hfds, h.ports fd]
    exact exists_congr fun i => (hports i fd).symm
  unique := fun i j fd hi hj => h.unique i j fd ((hports i fd).mp hi) ((hports j fd).mp hj)

theorem accepted_set {i : Nat} (hport : ∀ fd, c.port = .accepted fd ↔ (s.connection i).port = .accepted fd)
    (j : Nat) (fd : Int) : ((s.set i c).connection j).port = .accepted fd ↔
      (s.connection j).port = .accepted fd := by
  rw [set_connection]
  split
  · next heq =>
    subst heq
    exact hport fd
  · exact Iff.rfl

theorem Linked.accept {i : Nat} {fd : Int} {server : Server.State σ} (h : Linked serverFd s)
    (hwired : Server.Wired serverFd server) (hport : (s.connection i).port = .waiting)
    (hfresh : fd ∉ s.server.epollFds) (hfds : server.epollFds = fd :: s.server.epollFds) :
    Linked serverFd ({ s with server }.set i { s.connection i with port := .accepted fd }) := by
  have hnew : ∀ j, (s.connection j).port ≠ .accepted fd := fun j hj => hfresh ((h.ports fd).mpr ⟨j, hj⟩)
  have hold : ∀ j f, (({ s with server }.set i { s.connection i with port := .accepted fd }).connection
      j).port = .accepted f ↔ j = i ∧ f = fd ∨ (s.connection j).port = .accepted f := by
    intro j f
    rw [set_connection]
    split
    · next heq =>
      subst heq
      simp [hport, eq_comm]
    · next hne => simp [hne]
  refine ⟨hwired, fun f => ?_, fun j k f hj hk => ?_⟩
  · have hmem : f ∈ server.epollFds ↔ f = fd ∨ f ∈ s.server.epollFds := by rw [hfds, List.mem_cons]
    change f ∈ server.epollFds ↔ _
    rw [hmem, h.ports f]
    simp only [hold]
    constructor
    · rintro (rfl | ⟨j, hj⟩)
      · exact ⟨i, .inl ⟨rfl, rfl⟩⟩
      · exact ⟨j, .inr hj⟩
    · rintro ⟨j, ⟨-, rfl⟩ | hj⟩
      · exact .inl rfl
      · exact .inr ⟨j, hj⟩
  · rcases (hold j f).mp hj with ⟨hji, hf⟩ | hjf
    · rcases (hold k f).mp hk with ⟨hki, -⟩ | hkf
      · exact hji.trans hki.symm
      · exact absurd (hf ▸ hkf) (hnew k)
    · rcases (hold k f).mp hk with ⟨-, hf⟩ | hkf
      · exact absurd (hf ▸ hjf) (hnew j)
      · exact h.unique j k f hjf hkf

theorem Linked.hangup {i : Nat} {fd : Int} {server : Server.State σ} (h : Linked serverFd s)
    (hwired : Server.Wired serverFd server) (hport : (s.connection i).port = .accepted fd)
    (hfds : server.epollFds = s.server.epollFds.erase fd) :
    Linked serverFd ({ s with server }.set i { s.connection i with port := .closed }) := by
  have hold : ∀ j f, (({ s with server }.set i { s.connection i with port := .closed }).connection
      j).port = .accepted f ↔ j ≠ i ∧ (s.connection j).port = .accepted f := by
    intro j f
    rw [set_connection]
    split
    · next heq => simp [heq]
    · next hne => simp [hne]
  refine ⟨hwired, fun f => ?_, fun j k f hj hk => ?_⟩
  · have hmem : f ∈ server.epollFds ↔ f ≠ fd ∧ f ∈ s.server.epollFds := by
      rw [hfds]
      exact h.wired.nodup.mem_erase_iff
    change f ∈ server.epollFds ↔ _
    rw [hmem, h.ports f]
    simp only [hold]
    constructor
    · rintro ⟨hne, j, hj⟩
      refine ⟨j, ?_, hj⟩
      rintro rfl
      exact hne (Port.accepted.inj (hj.symm.trans hport))
    · rintro ⟨j, hne, hj⟩
      refine ⟨?_, j, hj⟩
      rintro rfl
      exact hne (h.unique j i f hj hport)
  · exact h.unique j k f ((hold j f).mp hj).2 ((hold k f).mp hk).2

theorem Linked.in_table (h : Linked serverFd s) {fd : Int} {response : CText}
    {events : List Server.Ready} (hpc : s.server.pc = .sending fd response events) :
    fd ∈ s.server.clientFds := by
  have hfd := h.wired.client fd (by rw [hpc]; rfl)
  exact (SlotTable.mem_occupied.mp (h.wired.table.mem_iff.mpr hfd)).1

theorem Linked.effect (h : Linked serverFd s) {a : Action} (he : Effect api serverFd s a t)
    (hroom : hasRoom s a = true) (hsound : ∀ i, Sound (s.connection i)) : Linked serverFd t := by
  have hwired : ∀ {a : Server.Action} {server : Server.State σ},
      Server.step api serverFd s.server a = some server → Server.kernelOk serverFd s.server a = true →
      Server.hasRoom s.server a = true → Server.Wired serverFd server := fun hserver => h.wired.step hserver
  cases he with
  | connect i hport => exact h.keep h.wired rfl (accepted_set fun fd => by simp [hport])
  | client i a c hc =>
    have hport := (clientStep_sound (hsound i) hc).2.1
    exact h.keep h.wired rfl (accepted_set fun fd => by rw [hport])
  | accept i fd server hport hkernel hserver =>
    have hfresh : fd ∉ s.server.epollFds := by
      simp only [Server.kernelOk, Bool.and_eq_true, decide_eq_true_eq] at hkernel
      exact hkernel.1.2
    refine h.accept (hwired hserver hkernel hroom) hport hfresh ?_
    cases Server.step_branch hserver with
    | accepted => rfl
  | recv i e events bytes server hpc hport hserver hbytes =>
    refine h.keep (hwired hserver rfl rfl) ?_ (accepted_set fun fd => Iff.rfl)
    obtain ⟨e, events, -, rfl⟩ := recv_data hserver
    rfl
  | hangup i e events result server hpc hport hresult hserver =>
    refine h.hangup (hwired hserver rfl rfl) hport ?_
    cases Server.step_branch hserver with
    | dropped _ e' events' hpc' hfd =>
      cases hpc.symm.trans hpc'
      rfl
    | received bytes => exact absurd rfl (hresult bytes)
  | send i fd response events result server hpc hport hfd hserver =>
    refine h.keep (wired_send h.wired hserver) ?_ (accepted_set fun fd => Iff.rfl)
    cases Server.step_branch hserver with
    | sent | unsent => rfl
  -- with at most `MAX_CLIENTS` clients the one that is answered is in the table
  | unsent i fd response events result server hpc hfd => exact absurd (h.in_table hpc) hfd
  | server a server hlocal hkernel hserver =>
    have hroom : Server.hasRoom s.server a = true := by
      cases a with
      | accept client registered =>
        cases client with
        | none => rfl
        | some fd => cases hlocal
      | _ => rfl
    refine h.keep (hwired hserver hkernel hroom) ?_ fun i fd => Iff.rfl
    cases local_effect hlocal hserver with
    | quiet _ _ hfds => exact hfds
    | executed fd bytes events hpc hserver =>
      subst hserver
      rfl

/-! ## One order of the commands of all clients -/

abbrev Exchange := Nat × List UInt8 × CText

def own (i : Nat) (xs : List Exchange) : List (List UInt8 × CText) := (xs.filter (·.1 = i)).map Prod.snd

def Sequential (api : DeviceApi σ) (d : σ) (xs : List Exchange) (device : σ) : Prop :=
  (execAll api (xs.map fun x => Server.chunkCommand x.2.1)).run d = (xs.map (·.2.2), device)

theorem own_concat (j i : Nat) (xs : List Exchange) (p : List UInt8 × CText) :
    own j (xs ++ [(i, p)]) = own j xs ++ if j = i then [p] else [] := by
  rw [own, List.filter_append, List.map_append, own, List.filter_cons, List.filter_nil]
  by_cases hij : j = i
  · simp [hij]
  · simp [hij, Ne.symm hij]

inductive Linear (api : DeviceApi σ) (d : σ) (s : State σ) : Prop
  | between (xs : List Exchange) (hpc : s.server.pc.client = none)
      (hrun : Sequential api d xs s.server.device)
      (hchunks : ∀ j, (s.connection j).chunks = (own j xs).map Prod.fst)
      (hreplies : ∀ j, (s.connection j).replies = (own j xs).map Prod.snd)
  | executing (xs : List Exchange) (i : Nat) (fd : Int) (bytes : List UInt8) (events : List Server.Ready)
      (hpc : s.server.pc = .executing fd bytes events) (hport : (s.connection i).port = .accepted fd)
      (hrun : Sequential api d xs s.server.device)
      (hchunks : ∀ j, (s.connection j).chunks = (own j xs).map Prod.fst ++ if j = i then [bytes] else [])
      (hreplies : ∀ j, (s.connection j).replies = (own j xs).map Prod.snd)
  | sending (xs : List Exchange) (i : Nat) (fd : Int) (bytes : List UInt8) (response : CText)
      (events : List Server.Ready) (hpc : s.server.pc = .sending fd response events)
      (hport : (s.connection i).port = .accepted fd)
      (hrun : Sequential api d (xs ++ [(i, bytes, response)]) s.server.device)
      (hchunks : ∀ j, (s.connection j).chunks = (own j (xs ++ [(i, bytes, response)])).map Prod.fst)
      (hreplies : ∀ j, (s.connection j).replies = (own j xs).map Prod.snd)

theorem Linear.quiet (h : Linear api d s)
    (hpc : t.server.pc = s.server.pc ∨ s.server.pc.client = none ∧ t.server.pc.client = none)
    (hdevice : t.server.device = s.server.device)
    (hports : ∀ j fd, (s.connection j).port = .accepted fd → s.server.pc.client = some fd →
      (t.connection j).port = .accepted fd)
    (hchunks : ∀ j, (t.connection j).chunks = (s.connection j).chunks)
    (hreplies : ∀ j, (t.connection j).replies = (s.connection j).replies) : Linear api d t := by
  cases h with
  | between xs hp hrun hc hr =>
    refine .between xs ?_ (hdevice ▸ hrun) (fun j => (hchunks j).trans (hc j))
      fun j => (hreplies j).trans (hr j)
    rcases hpc with hpc | hpc
    · rwa [hpc]
    · exact hpc.2
  | executing xs i fd bytes events hp hport hrun hc hr =>
    rcases hpc with hpc | hpc
    · exact .executing xs i fd bytes events (hpc.trans hp) (hports i fd hport (by rw [hp]; rfl))
        (hdevice ▸ hrun) (fun j => (hchunks j).trans (hc j)) fun j => (hreplies j).trans (hr j)
    · rw [hp] at hpc
      cases hpc.1
  | sending xs i fd bytes response events hp hport hrun hc hr =>
    rcases hpc with hpc | hpc
    · exact .sending xs i fd bytes response events (hpc.trans hp) (hports i fd hport (by rw [hp]; rfl))
        (hdevice ▸ hrun) (fun j => (hchunks j).trans (hc j)) fun j => (hreplies j).trans (hr j)
    · rw [hp] at hpc
      cases hpc.1

theorem Linear.recv (h : Linear api d s) {i : Nat} {e : Server.Ready} {events : List Server.Ready}
    {bytes : List UInt8} {server : Server.State σ} {c : Connection}
    (hpc : s.server.pc = .handling (e :: events)) (hport : c.port = .accepted e.fd)
    (hserver : server.pc = .executing e.fd bytes events) (hdevice : server.device = s.server.device)
    (hchunks : c.chunks = (s.connection i).chunks ++ [bytes])
    (hreplies : c.replies = (s.connection i).replies) :
    Linear api d ({ s with server }.set i c) := by
  cases h with
  | executing _ _ _ _ _ hp | sending _ _ _ _ _ _ hp => cases hpc.symm.trans hp
  | between xs hp hrun hc hr =>
    refine .executing xs i e.fd bytes events hserver ?_ (hdevice ▸ hrun) (fun j => ?_) fun j => ?_
    · rw [set_same]
      exact hport
    · rw [set_connection]
      split
      · next heq =>
        subst heq
        rw [hchunks, hc]
      · exact (hc j).trans (List.append_nil _).symm
    · rw [set_connection]
      split
      · next heq =>
        subst heq
        exact hreplies.trans (hr j)
      · exact hr j

theorem Linear.executed (h : Linear api d s) {fd : Int} {bytes : List UInt8} {events : List Server.Ready}
    (hpc : s.server.pc = .executing fd bytes events) :
    Linear api d { s with server := Server.exec api s.server fd bytes events } := by
  cases h with
  | between _ hp => rw [hpc] at hp; cases hp
  | sending _ _ _ _ _ _ hp => cases hpc.symm.trans hp
  | executing xs i fd' bytes' events' hp hport hrun hc hr =>
    cases hpc.symm.trans hp
    refine .sending xs i fd bytes _ events rfl hport ?_ (fun j => ?_) hr
    · unfold Sequential
      rw [List.map_append, List.map_append]
      exact execAll_concat (Server.chunkCommand bytes) hrun
    · have hj := hc j
      rw [own_concat, List.map_append]
      refine hj.trans (congrArg _ ?_)
      split <;> rfl

theorem Linear.send (h : Linear api d s) (hlinked : Linked serverFd s) {i : Nat} {fd : Int}
    {response : CText} {events : List Server.Ready} {server : Server.State σ} {c : Connection}
    (hpc : s.server.pc = .sending fd response events) (hport : (s.connection i).port = .accepted fd)
    (hserver : server.pc.client = none) (hdevice : server.device = s.server.device)
    (hchunks : c.chunks = (s.connection i).chunks)
    (hreplies : c.replies = (s.connection i).replies ++ [response]) :
    Linear api d ({ s with server }.set i c) := by
  cases h with
  | between _ hp => rw [hpc] at hp; cases hp
  | executing _ _ _ _ _ hp => cases hpc.symm.trans hp
  | sending xs k fd' bytes response' events' hp hport' hrun hc hr =>
    cases hpc.symm.trans hp
    -- the descriptor is that of one connection only
    obtain rfl := hlinked.unique i k fd hport hport'
    refine .between (xs ++ [(i, bytes, response)]) hserver (hdevice ▸ hrun) (fun j => ?_) fun j => ?_
    · rw [set_connection]
      split
      · next heq =>
        subst heq
        exact hchunks.trans (hc j)
      · exact hc j
    · rw [own_concat, List.map_append, set_connection]
      split
      · next heq =>
        subst heq
        rw [hreplies, hr]
        rfl
      · next hne => exact (hr j).trans (List.append_nil _).symm

theorem Linear.effect (h : Linear api d s) (hlinked : Linked serverFd s)
    (hsound : ∀ i, Sound (s.connection i)) {a : Action} (he : Effect api serverFd s a t) :
    Linear api d t := by
  have hnone : ∀ {pc : Server.Pc}, s.server.pc = pc → pc.client = none → s.server.pc.client = none :=
    fun hpc hclient => (congrArg Server.Pc.client hpc).trans hclient
  -- where one connection moves and neither reads nor writes at the server's end
  have hmove : ∀ (server : Server.State σ) (i : Nat) (c : Connection),
      (server.pc = s.server.pc ∨ s.server.pc.client = none ∧ server.pc.client = none) →
      server.device = s.server.device →
      (∀ fd, (s.connection i).port = .accepted fd → s.server.pc.client = some fd → c.port = .accepted fd) →
      c.chunks = (s.connection i).chunks → c.replies = (s.connection i).replies →
      Linear api d ({ s with server }.set i c) := by
    intro server i c hpc hdevice hport hchunks hreplies
    refine h.quiet hpc hdevice (fun j fd hj hfd => ?_) (fun j => ?_) fun j => ?_
    · rw [set_connection]
      split
      · next heq => exact hport fd (heq ▸ hj) hfd
      · exact hj
    · rw [set_connection]
      split
      · next heq => rw [hchunks, heq]
      · rfl
    · rw [set_connection]
      split
      · next heq => rw [hreplies, heq]
      · rfl
  cases he with
  | connect i hport =>
    exact hmove s.server i _ (.inl rfl) rfl (fun fd hfd => by cases hport.symm.trans hfd) rfl rfl
  | client i a c hc =>
    obtain ⟨-, hport, hchunks, hreplies⟩ := clientStep_sound (hsound i) hc
    exact hmove s.server i c (.inl rfl) rfl (fun fd hfd _ => hport.trans hfd) hchunks hreplies
  | accept i fd server hport hkernel hserver =>
    cases Server.step_branch hserver with
    | accepted fd e events hpc =>
      exact hmove _ i _ (.inr ⟨hnone hpc rfl, Server.resume_client events⟩) rfl
        (fun fd hfd => by cases hport.symm.trans hfd) rfl rfl
  | recv i e events bytes server hpc hport hserver hbytes =>
    obtain ⟨e', events', hpc', rfl⟩ := recv_data hserver
    cases hpc.symm.trans hpc'
    exact h.recv hpc hport rfl rfl rfl rfl
  | hangup i e events result server hpc hport hresult hserver =>
    cases Server.step_branch hserver with
    | dropped _ e' events' hpc' hfd =>
      refine hmove _ i _ (.inr ⟨hnone hpc rfl, Server.resume_client events'⟩) rfl (fun fd _ hfd => ?_) rfl rfl
      rw [hpc] at hfd
      cases hfd
    | received bytes => exact absurd rfl (hresult bytes)
  | send i fd response events result server hpc hport hfd hserver =>
    obtain ⟨hidle, hdevice⟩ := send_answered hserver
    exact h.send hlinked hpc hport hidle hdevice rfl rfl
  | unsent i fd response events result server hpc hfd => exact absurd (hlinked.in_table hpc) hfd
  | server a server hlocal hkernel hserver =>
    cases local_effect hlocal hserver with
    | quiet hpc hdevice => exact h.quiet hpc hdevice (fun _ _ hj _ => hj) (fun _ => rfl) fun _ => rfl
    | executed fd bytes events hpc hserver =>
      subst hserver
      exact h.executed hpc

/-! ## Runs -/

structure Sane (api : DeviceApi σ) (serverFd : Int) (d : σ) (s : State σ) : Prop where
  linked : Linked serverFd s
  replying : Server.Replying s.server
  sound : ∀ i, Sound (s.connection i)
  linear : Linear api d s

theorem sane_start : Sane api serverFd d { server := { device := d } } where
  linked := ⟨Server.wired_start rfl rfl rfl, fun fd => by simp, fun i j fd hi => by cases hi⟩
  replying := ⟨fun _ _ hmem => absurd hmem List.not_mem_nil, by rintro _ _ _ ⟨⟩⟩
  sound := fun _ => sound_start
  linear := .between [] rfl rfl (fun _ => rfl) fun _ => rfl

theorem Sound.wrote (h : Sound c) {response : CText} (hreply : IsReply response) :
    Sound { c with toClient := c.toClient ++ response, replies := c.replies ++ [response] } where
  toServer := h.toServer
  toClient := by
    dsimp only
    rw [List.flatten_append, List.flatten_singleton, h.toClient, List.append_assoc]
  accounted := h.accounted
  shown := h.shown
  replies := fun r hr => by
    rcases List.mem_append.mp hr with hr | hr
    · exact h.replies r hr
    · exact List.mem_singleton.mp hr ▸ hreply

theorem Sound.read (h : Sound c) {bytes : List UInt8} (hbytes : bytes <+: c.toServer) :
    Sound { c with toServer := c.toServer.drop bytes.length, chunks := c.chunks ++ [bytes] } where
  toServer := by
    dsimp only
    rw [List.flatten_append, List.flatten_singleton, List.append_assoc, append_drop_of_prefix hbytes]
    exact h.toServer
  toClient := h.toClient
  accounted := h.accounted
  shown := h.shown
  replies := h.replies

theorem Sound.port (h : Sound c) (port : Port) : Sound { c with port } :=
  ⟨h.toServer, h.toClient, h.accounted, h.shown, h.replies⟩

theorem Sane.effect (hapi : api.ReturnsInts) (h : Sane api serverFd d s) {a : Action}
    (he : Effect api serverFd s a t) (hroom : hasRoom s a = true) : Sane api serverFd d t := by
  refine ⟨h.linked.effect he hroom h.sound, ?_, ?_, h.linear.effect h.linked h.sound he⟩
  · cases he with
    | connect | client => exact h.replying
    | accept _ _ _ _ _ hserver | recv _ _ _ _ _ _ _ hserver | hangup _ _ _ _ _ _ _ _ hserver
    | send _ _ _ _ _ _ _ _ _ hserver | server _ _ _ _ hserver => exact h.replying.step hapi hserver
    | unsent i fd response events result server hpc hfd => exact absurd (h.linked.in_table hpc) hfd
  · cases he with
    | connect i | accept i | hangup i => exact forall_set h.sound ((h.sound i).port _)
    | client i a c hc => exact forall_set h.sound (clientStep_sound (h.sound i) hc).1
    | recv i e events bytes server hpc hport hserver hbytes =>
      exact forall_set h.sound ((h.sound i).read hbytes)
    | send i fd response events result server hpc =>
      exact forall_set h.sound ((h.sound i).wrote (h.replying.sending fd response events hpc))
    | unsent | server => exact h.sound

theorem Uncrowded.sane (hapi : api.ReturnsInts) (h : Uncrowded api serverFd d s) :
    Sane api serverFd d s := by
  refine h.invariant ?_ fun s a t hs hstep => ?_
  · rintro _ rfl
    exact sane_start
  · obtain ⟨hroom, hstep⟩ := Runs.guarded_eq_some.mp hstep
    exact hs.effect hapi (step_effect hstep) hroom

structure Settled (s : State σ) (i : Nat) : Prop where
  server : s.server.pc.client = none
  client : (s.connection i).gone = false ∧ (s.connection i).client.unsent = []
  streams : (s.connection i).toServer = [] ∧ (s.connection i).toClient = []

/-- What the user of a connection has typed and sees, beside its exchanges: the server has executed
bytes that the console has sent, which are those of lines that were typed. -/
structure Conversation (s : State σ) (i : Nat) (exchanges : List (List UInt8 × CText)) : Prop where
  executed : (exchanges.map Prod.fst).flatten <+: (s.connection i).client.sent.reverse.flatten
  typed : (s.connection i).client.sent.reverse <+:
    (s.connection i).client.pieces.reverse.filterMap Client.wire
  screen : (s.connection i).client.shown.reverse.flatten <+: (exchanges.map Prod.snd).flatten
  lines : complete lineEnd (s.connection i).client.shown.reverse.flatten <+:
    exchanges.map fun x => Server.readText x.2
  settled : Settled s i →
    (exchanges.map Prod.fst).flatten = (s.connection i).client.sent.reverse.flatten ∧
      (s.connection i).client.sent.reverse =
        (s.connection i).client.pieces.reverse.filterMap Client.wire ∧
      (s.connection i).client.shown.reverse.flatten = (exchanges.map Prod.snd).flatten

theorem IsReply.nul_not_mem {reply : CText} (h : IsReply reply) : 0 ∉ reply := by
  obtain ⟨text, hplain, rfl⟩ := h.text
  intro hmem
  rcases List.mem_append.mp hmem with hmem | hmem
  · exact absurd (hplain 0 hmem) (by decide)
  · exact absurd (List.mem_singleton.mp hmem) (by decide)

theorem Sound.shown_eq (h : Sound c) : c.client.shown.reverse = c.client.received.reverse := by
  have hpre : c.client.received.reverse.flatten <+: c.replies.flatten := ⟨c.toClient, h.toClient.symm⟩
  have hnul : ∀ bytes ∈ c.client.received, ofBuffer bytes = bytes := by
    intro bytes hbytes
    apply ofBuffer_eq
    intro hmem
    have hall : 0 ∈ c.client.received.reverse.flatten :=
      List.mem_flatten.mpr ⟨bytes, List.mem_reverse.mpr hbytes, hmem⟩
    obtain ⟨reply, hreply, hmem⟩ := List.mem_flatten.mp (hpre.subset hall)
    exact IsReply.nul_not_mem (h.replies reply hreply) hmem
  rw [h.shown, List.map_congr_left hnul, List.map_id']

theorem Sound.sent_initial (h : Sound c) :
    c.client.sent.reverse <+: c.client.pieces.reverse.filterMap Client.wire := by
  rcases h.accounted.sent with hsent | ⟨-, text, hsent⟩
  · exact ⟨_, hsent.symm⟩
  · exact ⟨_, hsent.symm⟩

theorem Sound.conversation {i : Nat} {exchanges : List (List UInt8 × CText)}
    (h : Sound (s.connection i)) (hchunks : exchanges.map Prod.fst <+: (s.connection i).chunks)
    (hreplies : (s.connection i).replies <+: exchanges.map Prod.snd)
    (hanswered : ∀ x ∈ exchanges, IsReply x.2)
    (hidle : s.server.pc.client = none → exchanges.map Prod.fst = (s.connection i).chunks ∧
      exchanges.map Prod.snd = (s.connection i).replies) : Conversation s i exchanges := by
  have hscreen : (s.connection i).client.shown.reverse.flatten <+: (exchanges.map Prod.snd).flatten := by
    rw [h.shown_eq]
    exact .trans ⟨_, h.toClient.symm⟩ hreplies.flatten
  refine ⟨hchunks.flatten.trans ⟨_, h.toServer.symm⟩, h.sent_initial, hscreen, ?_,
    fun hsettled => ⟨?_, ?_, ?_⟩⟩
  · have hall : ∀ r ∈ exchanges.map Prod.snd, IsReply r := by
      intro r hr
      obtain ⟨x, hx, rfl⟩ := List.mem_map.mp hr
      exact hanswered x hx
    obtain ⟨hstream, hend⟩ := Server.stream_readText hall
    have hlines : complete lineEnd _ <+: complete lineEnd _ := complete_mono hscreen
    rw [hstream, complete_stream hend, List.map_map] at hlines
    exact hlines
  · obtain ⟨hchunks, -⟩ := hidle hsettled.server
    rw [hchunks, h.toServer, hsettled.streams.1, List.append_nil]
  · have hsent := h.accounted.sent.resolve_right fun hended => by
      have hgone := hsettled.client.1
      rcases hended.1 with hpc | hpc <;> simp [Connection.gone, hpc] at hgone
    rw [hsettled.client.2, List.append_nil] at hsent
    exact hsent.symm
  · obtain ⟨-, hreplies⟩ := hidle hsettled.server
    rw [hreplies, h.shown_eq, h.toClient, hsettled.streams.2, List.append_nil]

theorem Sequential.answers {xs : List Exchange} {device : σ} (h : Sequential api d xs device)
    (hapi : api.ReturnsInts) (i : Nat) : ∀ x ∈ own i xs, IsReply x.2 := by
  intro p hp
  obtain ⟨x, hx, rfl⟩ := List.mem_map.mp hp
  have hvalues : ∀ c ∈ xs.map fun x => Server.chunkCommand x.2.1, IsInt c.value := by
    intro c hc
    obtain ⟨y, -, rfl⟩ := List.mem_map.mp hc
    exact isInt_commandParse _
  have hall := execAll_isReply hapi hvalues d
  rw [h] at hall
  exact hall x.2.2 (List.mem_map_of_mem (List.mem_filter.mp hx).1)

/-- In every run of the server with at most `MAX_CLIENTS` accepted clients at a time, however the
streams are cut and whoever comes first: there is one order of commands whose replies the devices
give, one command after the other, such that what was executed for a client is what it has sent, and
what it sees are the replies to that. -/
theorem conversations (hapi : api.ReturnsInts) (h : Uncrowded api serverFd d s) :
    ∃ xs : List Exchange, Sequential api d xs s.server.device ∧ ∀ i, Conversation s i (own i xs) := by
  obtain ⟨-, -, hsound, hlinear⟩ := h.sane hapi
  cases hlinear with
  | between xs hpc hrun hchunks hreplies =>
    exact ⟨xs, hrun, fun i => (hsound i).conversation (hchunks i ▸ List.prefix_rfl)
      (hreplies i ▸ List.prefix_rfl) (hrun.answers hapi i) fun _ => ⟨(hchunks i).symm, (hreplies i).symm⟩⟩
  | executing xs k fd bytes events hpc hport hrun hchunks hreplies =>
    refine ⟨xs, hrun, fun i => (hsound i).conversation ?_ (hreplies i ▸ List.prefix_rfl)
      (hrun.answers hapi i) fun hidle => ?_⟩
    · rw [hchunks i]
      exact List.prefix_append ..
    · rw [hpc] at hidle
      cases hidle
  | sending xs k fd bytes response events hpc hport hrun hchunks hreplies =>
    refine ⟨xs ++ [(k, bytes, response)], hrun, fun i => (hsound i).conversation
      (hchunks i ▸ List.prefix_rfl) ?_ (hrun.answers hapi i) fun hidle => ?_⟩
    · rw [hreplies i, own_concat, List.map_append]
      exact List.prefix_append ..
    · rw [hpc] at hidle
      cases hidle

def ready (fd : Int) : List Action := [.server .poll, .server (.epollWait (some [⟨fd, true⟩]))]

def typing (i : Nat) (line : CText) : List Action := [
  .client i .poll, .client i (.polled (.ready false false true)), .client i (.fgets [.data line]),
  .client i (.send true)]

def serving (i : Nat) (fd : Int) (chunk : List UInt8) : List Action :=
  ready fd ++ [.recv i (.data chunk), .server .exec, .send i .sent]

def reading (i : Nat) (bytes : List UInt8) : List Action :=
  [.client i .poll, .client i (.polled (.ready false true false)), .client i (.recv (.data bytes))]

/-- Two clients, whose commands are served in the other order; a reply arrives in two parts. -/
def twoClients : List Action :=
  [.connect 0, .connect 1] ++ ready 3 ++ [.accept 0 4] ++ ready 3 ++ [.accept 1 5] ++
    typing 0 (ascii "led on\r\n") ++ typing 1 (ascii "STATUS\n") ++
    serving 1 5 (ascii "STATUS\n") ++ serving 0 4 (ascii "led on\n") ++
    reading 0 (ascii "OK LED") ++ reading 0 (ascii " ON\n")

theorem conversations_two : ∃ s : State Unit, Uncrowded Server.quietApi 3 () s ∧
    (s.connection 0).client.shown = [ascii " ON\n", ascii "OK LED"] ∧
    ∃ xs : List Exchange, Sequential Server.quietApi () xs s.server.device ∧
      ∀ i, Conversation s i (own i xs) := by
  have hstart : Uncrowded Server.quietApi 3 () { server := { device := () } } := .start rfl
  obtain ⟨s, hs, hshown⟩ := hstart.exists_of_run twoClients
    (fun s => (s.connection 0).client.shown = [ascii " ON\n", ascii "OK LED"]) (by decide +kernel)
  exact ⟨s, hs, of_decide_eq_true hshown, conversations Server.quietApi_returnsInts hs⟩

end RemoteDevice.Network
