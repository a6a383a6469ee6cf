import Mathlib.Data.List.Forall2
import RemoteDevice.Server.Service

/-! Requests and replies of one client: every chunk that `recv` returns is one command. -/

namespace RemoteDevice.Server
open CText

/-! ## The traffic of a client -/

def Entry.Serves (fd : Int) : Entry → Bool
  | .received f _ | .executed f _ | .sent f _ => f = fd
  | _ => false

def Entry.fd : Entry → Int
  | .accepted fd | .closed fd | .received fd _ | .executed fd _ | .logged fd _ _ | .sent fd _ => fd

def Entry.received? (fd : Int) : Entry → Option (List UInt8)
  | .received f bytes => if f = fd then some bytes else none
  | _ => none

def Entry.executed? (fd : Int) : Entry → Option ParsedCommand
  | .executed f command => if f = fd then some command else none
  | _ => none

def Entry.sent? (fd : Int) : Entry → Option CText
  | .sent f response => if f = fd then some response else none
  | _ => none

def traffic (fd : Int) (log : List Entry) : List Entry := log.reverse.filter (·.Serves fd)

def receivedFrom (fd : Int) (log : List Entry) : List (List UInt8) :=
  (traffic fd log).filterMap (·.received? fd)

def executedFor (fd : Int) (log : List Entry) : List ParsedCommand :=
  (traffic fd log).filterMap (·.executed? fd)

def sentTo (fd : Int) (log : List Entry) : List CText :=
  (traffic fd log).filterMap (·.sent? fd)

def chunkCommand (bytes : List UInt8) : ParsedCommand := commandParse (ofBuffer bytes)

def exchange (fd : Int) (p : List UInt8 × CText) : List Entry :=
  [.received fd p.1, .executed fd (chunkCommand p.1), .sent fd p.2]

theorem traffic_cons (fd : Int) (e : Entry) (log : List Entry) :
    traffic fd (e :: log) = traffic fd log ++ if e.Serves fd then [e] else [] := by
  rw [traffic, List.reverse_cons, List.filter_append, List.filter_cons]
  rfl

theorem traffic_cons_of_not {fd : Int} {e : Entry} {log : List Entry} (h : e.Serves fd = false) :
    traffic fd (e :: log) = traffic fd log := by
  rw [traffic_cons, h]
  exact List.append_nil _

variable {fd : Int} {ps : List (List UInt8 × CText)}

theorem filterMap_exchanges {β : Type} {f : Entry → Option β} {g : List UInt8 × CText → β}
    (h : ∀ p, (exchange fd p).filterMap f = [g p]) :
    (ps.flatMap (exchange fd)).filterMap f = ps.map g := by
  rw [List.filterMap_flatMap, List.map_eq_flatMap]
  exact congrArg (ps.flatMap ·) (funext h)

section
variable {log : List Entry} (h : traffic fd log = ps.flatMap (exchange fd))
include h

theorem receivedFrom_eq : receivedFrom fd log = ps.map Prod.fst := by
  rw [receivedFrom, h]
  exact filterMap_exchanges fun p => by simp [exchange, Entry.received?]

theorem executedFor_eq : executedFor fd log = ps.map fun p => chunkCommand p.1 := by
  rw [executedFor, h]
  exact filterMap_exchanges fun p => by simp [exchange, Entry.executed?]

theorem sentTo_eq : sentTo fd log = ps.map Prod.snd := by
  rw [sentTo, h]
  exact filterMap_exchanges fun p => by simp [exchange, Entry.sent?]

end

/-! ## The requests are served one by one -/

def OnlyClient (fd : Int) (log : List Entry) : Prop := ∀ f c, Entry.executed f c ∈ log → f = fd

variable {σ : Type} {api : DeviceApi σ} {serverFd : Int} {d : σ} {s t : State σ}

def Computed (api : DeviceApi σ) (fd : Int) (d : σ) (s : State σ)
    (ps : List (List UInt8 × CText)) : Prop :=
  OnlyClient fd s.log →
    (execAll api (ps.map fun p => chunkCommand p.1)).run d = (ps.map Prod.snd, s.device)

inductive Serving (api : DeviceApi σ) (fd : Int) (d : σ) (s : State σ) : Prop
  | between (ps : List (List UInt8 × CText)) (hpc : s.pc.client ≠ some fd)
      (ht : traffic fd s.log = ps.flatMap (exchange fd)) (hc : Computed api fd d s ps)
  | executing (ps : List (List UInt8 × CText)) (bytes : List UInt8) (events : List Ready)
      (hpc : s.pc = .executing fd bytes events)
      (ht : traffic fd s.log = ps.flatMap (exchange fd) ++ [.received fd bytes])
      (hc : Computed api fd d s ps)
  | sending (ps : List (List UInt8 × CText)) (bytes : List UInt8) (response : CText)
      (events : List Ready) (hpc : s.pc = .sending fd response events)
      (ht : traffic fd s.log = ps.flatMap (exchange fd) ++
        [.received fd bytes, .executed fd (chunkCommand bytes)])
      (hc : Computed api fd d s (ps ++ [(bytes, response)]))

theorem Computed.of_log (hc : Computed api fd d s ps) (hdevice : t.device = s.device)
    (hlog : ∀ f c, Entry.executed f c ∈ s.log → Entry.executed f c ∈ t.log) :
    Computed api fd d t ps := by
  intro honly
  rw [hdevice]
  exact hc fun f c hm => honly f c (hlog f c hm)

theorem Serving.quiet (h : Serving api fd d s) (hpc : t.pc = s.pc ∨
      s.pc.client = none ∧ t.pc.client = none) (hdevice : t.device = s.device)
    (ht : traffic fd t.log = traffic fd s.log)
    (hlog : ∀ f c, Entry.executed f c ∈ s.log → Entry.executed f c ∈ t.log) :
    Serving api fd d t := by
  have hclient : t.pc = s.pc ∨ s.pc.client ≠ some fd ∧ t.pc.client ≠ some fd := by
    rcases hpc with hpc | ⟨hs, ht⟩
    · exact .inl hpc
    · exact .inr ⟨by simp [hs], by simp [ht]⟩
  cases h with
  | between ps hp hr hc =>
    refine .between ps ?_ (ht ▸ hr) (hc.of_log hdevice hlog)
    rcases hclient with he | ⟨-, he⟩
    · rwa [he]
    · exact he
  | executing ps bytes events hp hr hc =>
    rcases hclient with he | ⟨he, -⟩
    · exact .executing ps bytes events (he.trans hp) (ht ▸ hr) (hc.of_log hdevice hlog)
    · exact absurd (by rw [hp]; rfl) he
  | sending ps bytes response events hp hr hc =>
    rcases hclient with he | ⟨he, -⟩
    · exact .sending ps bytes response events (he.trans hp) (ht ▸ hr) (hc.of_log hdevice hlog)
    · exact absurd (by rw [hp]; rfl) he

theorem Serving.received {bytes : List UInt8} {events : List Ready} (h : Serving api fd d s)
    {f : Int} (hs : s.pc.client = none) (hpc : t.pc = .executing f bytes events)
    (hlog : t.log = .received f bytes :: s.log) (hdevice : t.device = s.device) :
    Serving api fd d t := by
  cases h with
  | executing _ _ _ hp | sending _ _ _ _ hp => rw [hp] at hs; cases hs
  | between ps hp hr hc =>
    have hc := hc.of_log hdevice fun f c hm => by rw [hlog]; exact List.mem_cons_of_mem _ hm
    by_cases hf : f = fd
    · subst hf
      refine .executing ps bytes events hpc ?_ hc
      rw [hlog, traffic_cons, hr]
      simp [Entry.Serves]
    · refine .between ps (by rw [hpc]; simpa [Pc.client] using hf) ?_ hc
      rw [hlog, traffic_cons_of_not (by simpa [Entry.Serves] using hf), hr]

theorem Serving.executed {bytes : List UInt8} {events : List Ready} (h : Serving api fd d s)
    {f : Int} (hpc : s.pc = .executing f bytes events) :
    Serving api fd d (exec api s f bytes events) := by
  have hlog : (exec api s f bytes events).log = .logged f (copySingleLine bufferSize
        ((ofBuffer bytes).take (bufferSize - 1))) (copySingleLine bufferSize
        ((execCommand api (ofBuffer bytes)).run s.device).1) ::
      .executed f (chunkCommand bytes) :: s.log := rfl
  cases h with
  | sending _ _ _ _ hp => rw [hpc] at hp; cases hp
  | between ps hp hr hc =>
    have hf : f ≠ fd := by rw [hpc] at hp; simpa [Pc.client] using hp
    refine .between ps (by rw [exec_client]; simpa using hf) ?_ fun honly => ?_
    · rw [hlog, traffic_cons_of_not rfl, traffic_cons_of_not (by simpa [Entry.Serves] using hf), hr]
    · -- the other client's command is in the log
      exact absurd (honly f (chunkCommand bytes) (by simp [hlog])) hf
  | executing ps b es hp hr hc =>
    rw [hpc] at hp
    cases hp
    refine .sending ps bytes _ events rfl ?_ fun honly => ?_
    · rw [hlog, traffic_cons_of_not rfl, traffic_cons, hr]
      simp [Entry.Serves]
    · have hrun := hc fun f c hm => honly f c (by rw [hlog]; simp [hm])
      rw [List.map_append, List.map_append]
      exact execAll_concat (chunkCommand bytes) hrun

theorem Serving.sent {response : CText} {events : List Ready} (h : Serving api fd d s)
    (hfd : fd ≠ -1 ∧ fd ∈ s.clientFds) {f : Int} (hpc : s.pc = .sending f response events)
    (hpc' : t.pc.client = none)
    (hlog : t.log = if f ≠ -1 ∧ f ∈ s.clientFds then .sent f response :: s.log else s.log)
    (hdevice : t.device = s.device) : Serving api fd d t := by
  have hpc' : t.pc.client ≠ some fd := by simp [hpc']
  have hkeep : ∀ g c, Entry.executed g c ∈ s.log → Entry.executed g c ∈ t.log := by
    intro g c hm
    rw [hlog]
    split
    · exact List.mem_cons_of_mem _ hm
    · exact hm
  cases h with
  | executing _ _ _ hp => rw [hpc] at hp; cases hp
  | between ps hp hr hc =>
    have hf : f ≠ fd := by rw [hpc] at hp; simpa [Pc.client] using hp
    refine .between ps hpc' ?_ (hc.of_log hdevice hkeep)
    rw [hlog]
    split
    · rw [traffic_cons_of_not (by simpa [Entry.Serves] using hf), hr]
    · exact hr
  | sending ps bytes r es hp hr hc =>
    rw [hpc] at hp
    cases hp
    refine .between (ps ++ [(bytes, response)]) hpc' ?_ (hc.of_log hdevice hkeep)
    rw [hlog, if_pos hfd, traffic_cons, hr]
    simp [Entry.Serves, exchange]

/-! ## A client in the table stays there -/

theorem mem_replace {l : List Int} {x a b : Int} (h : x ∈ l) (hne : x ≠ a) : x ∈ l.replace a b := by
  induction l with
  | nil => cases h
  | cons y l ih =>
    rw [List.replace_cons]
    split
    · next hy =>
      rcases List.mem_cons.mp h with rfl | h
      · exact absurd (eq_of_beq hy).symm hne
      · exact List.mem_cons_of_mem _ h
    · rcases List.mem_cons.mp h with rfl | h
      · exact List.mem_cons_self ..
      · exact List.mem_cons_of_mem _ (ih h)

variable {a : Action}

theorem step_log_suffix (h : step api serverFd s a = some t) {e : Entry} (he : e ∈ s.log) :
    e ∈ t.log := by
  cases step_effect h with
  | quiet _ hlog => exact hlog ▸ he
  | accepted _ _ hlog | closed _ _ hlog | received _ _ _ _ _ hlog =>
    exact hlog ▸ List.mem_cons_of_mem _ he
  | executed _ _ _ _ ht => exact ht ▸ List.mem_cons_of_mem _ (List.mem_cons_of_mem _ he)
  | sent _ _ _ _ _ hlog =>
    rw [hlog]
    split
    · exact List.mem_cons_of_mem _ he
    · exact he

theorem step_connected (h : step api serverFd s a = some t) (hfd : fd ≠ -1 ∧ fd ∈ s.clientFds)
    (hclosed : .closed fd ∉ t.log) : fd ≠ -1 ∧ fd ∈ t.clientFds := by
  refine ⟨hfd.1, ?_⟩
  cases step_effect h with
  | quiet _ _ hfds | received _ _ _ _ _ _ hfds | sent _ _ _ _ _ _ hfds => exact hfds ▸ hfd.2
  | accepted f _ _ hfds => exact hfds ▸ mem_replace hfd.2 hfd.1
  | closed f _ hlog hfds =>
    have hne : fd ≠ f := fun he => hclosed (by rw [hlog, he]; exact List.mem_cons_self ..)
    exact hfds ▸ mem_replace hfd.2 hne
  | executed _ _ _ _ ht => exact ht ▸ hfd.2

theorem Serving.step (h : Serving api fd d s) (hfd : fd ≠ -1 ∧ fd ∈ s.clientFds)
    (hst : step api serverFd s a = some t) : Serving api fd d t := by
  cases step_effect hst with
  | quiet hpc hlog _ hdevice => exact h.quiet hpc hdevice (by rw [hlog]) fun _ _ => step_log_suffix hst
  | accepted _ hpc hlog _ hdevice | closed _ hpc hlog _ hdevice =>
    exact h.quiet (.inr hpc) hdevice (by rw [hlog, traffic_cons_of_not rfl])
      fun _ _ => step_log_suffix hst
  | received f bytes events hpc hpc' hlog _ hdevice => exact h.received hpc hpc' hlog hdevice
  | executed f bytes events hpc ht => exact ht ▸ h.executed hpc
  | sent f response events hpc hpc' hlog _ hdevice => exact h.sent hfd hpc hpc' hlog hdevice

theorem Serving.run {as : List Action} (h : Serving api fd d s)
    (hfd : fd ≠ -1 ∧ fd ∈ s.clientFds) (hr : Runs.run (Server.step api serverFd) s as = some t)
    (hclosed : .closed fd ∉ t.log) : Serving api fd d t := by
  induction as generalizing s with
  | nil => exact Option.some.inj hr ▸ h
  | cons a as ih =>
    obtain ⟨u, hu, hr⟩ := Option.bind_eq_some_iff.mp hr
    have hu' : .closed fd ∉ u.log := fun hm => hclosed
      (Runs.run_invariant (fun _ _ _ he hs => step_log_suffix hs he) hm hr)
    exact ih (h.step hfd hu) (step_connected hu hfd hu') hr

/-! ## Lines and chunks -/

def newline : UInt8 := 10

structure IsLine (line : List UInt8) : Prop where
  terminated : ∃ text, line = text ++ [newline] ∧ newline ∉ text
  nulFree : 0 ∉ line
  short : line.length < commandLineMax

structure Cut (lines chunks : List (List UInt8)) : Prop where
  isLine : ∀ l ∈ lines, IsLine l
  stream : chunks.flatten = lines.flatten
  size : ∀ c ∈ chunks, c ≠ [] ∧ c.length ≤ bufferSize - 1

def LineByLine (lines chunks : List (List UInt8)) : Prop :=
  List.Forall₂ (fun line chunk => chunk.length < commandLineMax ∧
    lineTokens chunk = lineTokens line) lines chunks

/-- The server has served a connected client from `d` on and is between two requests; `chunks` is
what `recv` returned for the client. -/
structure Session (api : DeviceApi σ) (serverFd fd : Int) (d : σ) (chunks : List (List UInt8))
    (t : State σ) : Prop where
  run : ∃ s as, s.pc.client = none ∧ s.log = [] ∧ s.device = d ∧ (fd ≠ -1 ∧ fd ∈ s.clientFds) ∧
    Runs.run (step api serverFd) s as = some t
  between : t.pc.client = none
  connected : .closed fd ∉ t.log
  received : receivedFrom fd t.log = chunks

variable {lines chunks : List (List UInt8)}

theorem Session.served (h : Session api serverFd fd d chunks t) :
    ∃ ps, ps.map Prod.fst = chunks ∧ traffic fd t.log = ps.flatMap (exchange fd) ∧
      Computed api fd d t ps := by
  obtain ⟨s, as, hpc, hlog, hd, hfd, hr⟩ := h.run
  have h0 : Serving api fd d s :=
    .between [] (by simp [hpc]) (by rw [hlog]; rfl) fun _ => by rw [hd]; rfl
  cases h0.run hfd hr h.connected with
  | executing _ _ _ hp | sending _ _ _ _ hp => have := h.between; rw [hp] at this; cases this
  | between ps _ ht hc => exact ⟨ps, (receivedFrom_eq ht).symm.trans h.received, ht, hc⟩

theorem Cut.nulFree (h : Cut lines chunks) : ∀ c ∈ chunks, 0 ∉ c := by
  intro c hc h0
  have hm : 0 ∈ lines.flatten := h.stream ▸ List.mem_flatten.mpr ⟨c, hc, h0⟩
  obtain ⟨l, hl, h0⟩ := List.mem_flatten.mp hm
  exact (h.isLine l hl).nulFree h0

theorem map_chunkCommand {cs : List (List UInt8)} (h : ∀ c ∈ cs, 0 ∉ c) :
    cs.map chunkCommand = cs.map fun c => commandParse (some c) := by
  apply List.map_congr_left
  intro c hc
  rw [chunkCommand, ofBuffer_eq (h c hc)]

theorem LineByLine.commands (h : LineByLine lines chunks) (hl : ∀ l ∈ lines, IsLine l) :
    (chunks.map fun c => commandParse (some c)) = lines.map fun l => commandParse (some l) := by
  induction h with
  | nil => rfl
  | @cons line chunk lines chunks hc _ ih =>
    have hline := (hl line (List.mem_cons_self ..)).short
    rw [List.map_cons, List.map_cons, commandParse_congr hc.1 hline hc.2,
      ih fun l hm => hl l (List.mem_cons_of_mem _ hm)]

/-- Whole lines that arrive in one chunk are the one command of all their tokens. -/
theorem coalesced_command (hl : ∀ l ∈ lines, IsLine l) (h : lines.flatten.length < commandLineMax) :
    chunkCommand lines.flatten = parseTokens (lines.flatMap lineTokens) := by
  have hnul : 0 ∉ lines.flatten := by
    intro h0
    obtain ⟨l, hm, h0⟩ := List.mem_flatten.mp h0
    exact (hl l hm).nulFree h0
  rw [chunkCommand, ofBuffer_eq hnul, commandParse_eq h, lineTokens_flatten]
  intro l hm
  obtain ⟨text, rfl, -⟩ := (hl l hm).terminated
  exact List.getLast?_concat ..

theorem Session.sentTo_eq {chunks' : List (List UInt8)} {t' : State σ}
    (h : Session api serverFd fd d chunks t) (h' : Session api serverFd fd d chunks' t')
    (hcmds : chunks.map chunkCommand = chunks'.map chunkCommand)
    (honly : OnlyClient fd t.log) (honly' : OnlyClient fd t'.log) :
    sentTo fd t.log = sentTo fd t'.log := by
  obtain ⟨ps, rfl, ht, hc⟩ := h.served
  obtain ⟨qs, rfl, ht', hc'⟩ := h'.served
  rw [List.map_map, List.map_map] at hcmds
  have hrun := hc honly
  have hrun' := hc' honly'
  rw [show (ps.map fun p => chunkCommand p.1) = qs.map fun p => chunkCommand p.1 from hcmds,
    hrun'] at hrun
  rw [Server.sentTo_eq ht, Server.sentTo_eq ht']
  exact (congrArg Prod.fst hrun).symm

/-- Every chunk is executed as one command and answered by one reply, in the order of arrival,
however the stream was cut. When each chunk has the tokens of one line these are the commands
of the lines, with the replies they get when every line comes in a chunk of its own. -/
theorem service_chunks (hcut : Cut lines chunks) (h : Session api serverFd fd d chunks t) :
    (∃ rs : List CText, rs.length = chunks.length ∧
      traffic fd t.log = (chunks.zip rs).flatMap fun p =>
        [.received fd p.1, .executed fd (commandParse p.1), .sent fd p.2]) ∧
    (LineByLine lines chunks →
      executedFor fd t.log = (lines.map fun l => commandParse (some l)) ∧
      (sentTo fd t.log).length = lines.length ∧
      ∀ t', Session api serverFd fd d lines t' → OnlyClient fd t.log → OnlyClient fd t'.log →
        sentTo fd t.log = sentTo fd t'.log) := by
  obtain ⟨ps, hps, ht, -⟩ := h.served
  have hnul := hcut.nulFree
  refine ⟨⟨ps.map Prod.snd, by simp [← hps], ?_⟩, fun hlines => ?_⟩
  · rw [ht, ← List.zip_of_prod hps rfl]
    apply List.flatMap_congr
    intro p hp
    rw [exchange, chunkCommand, ofBuffer_eq (hnul p.1 (hps ▸ List.mem_map_of_mem hp))]
  · have hcmds := hlines.commands hcut.isLine
    have hlen : ps.length = lines.length := by
      rw [hlines.length_eq, ← hps, List.length_map]
    refine ⟨?_, by rw [Server.sentTo_eq ht, List.length_map, hlen], fun t' h' => ?_⟩
    · rw [executedFor_eq ht, ← hcmds, ← map_chunkCommand hnul, ← hps, List.map_map]
      rfl
    · apply h.sentTo_eq h'
      rw [map_chunkCommand hnul, hcmds, map_chunkCommand fun l hl => (hcut.isLine l hl).nulFree]

/-! ## Two lines, cut in two ways -/

def quietApi : DeviceApi Unit where
  deviceGetStatus := pure ⟨true, false, false, -1, false, 0⟩
  pluginGetStatus := pure ⟨true, true, true, true⟩
  deviceLedOn := pure 0
  deviceLedOnBright _ := pure 0
  deviceLedOff := pure 0
  deviceBuzzerMusic _ := pure 0
  deviceBuzzerOn := pure 0
  deviceBuzzerOff := pure 0
  deviceBuzzerBeep _ := pure 0
  deviceLightRead := pure (0, 0)
  deviceSegmentDisplay _ := pure 0
  deviceSegmentClear := pure 0

def requestSteps (chunk : List UInt8) : List Action :=
  [.poll, .epollWait (some [⟨4, true⟩]), .recv (.data chunk), .exec, .send .sent]

def servedChunks (chunks : List (List UInt8)) : Option (State Unit) :=
  Runs.run (step quietApi 3)
    { clientFds := addClient (List.replicate maxClients (-1)) 4, device := () }
    (chunks.flatMap requestSteps)

theorem session_servedChunks {chunks : List (List UInt8)} {t : State Unit}
    (h : servedChunks chunks = some t)
    (ht : t.pc.client = none ∧ .closed 4 ∉ t.log ∧ receivedFrom 4 t.log = chunks) :
    Session quietApi 3 4 () chunks t where
  run := ⟨_, _, rfl, rfl, rfl, ⟨by decide, by decide⟩, h⟩
  between := ht.1
  connected := ht.2.1
  received := ht.2.2

def ledLines : List (List UInt8) := [ascii "LED ON\n", ascii "LED OFF\n"]

theorem isLine_ledLines : ∀ l ∈ ledLines, IsLine l := by
  intro l hl
  rcases List.mem_pair.mp hl with rfl | rfl
  · exact ⟨⟨ascii "LED ON", by decide, by decide⟩, by decide, by decide⟩
  · exact ⟨⟨ascii "LED OFF", by decide, by decide⟩, by decide, by decide⟩

/-- The first cut comes before the newline of the first line. -/
def earlyCut : List (List UInt8) := [ascii "LED ON", ascii "\nLED OFF\n"]

theorem cut_earlyCut : Cut ledLines earlyCut := ⟨isLine_ledLines, by decide, by decide⟩

theorem lineByLine_earlyCut : LineByLine ledLines earlyCut :=
  .cons (by decide) (.cons (by decide) .nil)

theorem service_chunks_earlyCut : ∃ t t' : State Unit,
    Session quietApi 3 4 () earlyCut t ∧ Session quietApi 3 4 () ledLines t' ∧
    executedFor 4 t.log = [{ type := .ledOn }, { type := .ledOff }] ∧
    sentTo 4 t.log = sentTo 4 t'.log := by
  obtain ⟨t, h, ht, honly⟩ : ∃ t, servedChunks earlyCut = some t ∧
      (t.pc.client = none ∧ .closed 4 ∉ t.log ∧ receivedFrom 4 t.log = earlyCut) ∧
      ∀ e ∈ t.log, e.fd = 4 := ⟨_, rfl, by decide, by decide⟩
  obtain ⟨t', h', ht', honly'⟩ : ∃ t, servedChunks ledLines = some t ∧
      (t.pc.client = none ∧ .closed 4 ∉ t.log ∧ receivedFrom 4 t.log = ledLines) ∧
      ∀ e ∈ t.log, e.fd = 4 := ⟨_, rfl, by decide, by decide⟩
  have hs := session_servedChunks h ht
  have hs' := session_servedChunks h' ht'
  obtain ⟨hcmds, -, hsent⟩ := (service_chunks cut_earlyCut hs).2 lineByLine_earlyCut
  exact ⟨t, t', hs, hs', hcmds.trans (by decide), hsent t' hs' (fun f c hm => honly _ hm)
    fun f c hm => honly' _ hm⟩

/-- The lines in one chunk are one malformed command with one reply. -/
theorem lines_lost_in_one_chunk : ¬ ∀ (lines chunks : List (List UInt8)) (t : State Unit),
    Cut lines chunks → Session quietApi 3 4 () chunks t →
      executedFor 4 t.log = (lines.map fun l => commandParse (some l)) ∧
      (sentTo 4 t.log).length = lines.length := by
  intro hclaim
  have hcut : Cut ledLines [ledLines.flatten] := ⟨isLine_ledLines, by simp, by decide⟩
  obtain ⟨t, h, ht⟩ : ∃ t, servedChunks [ledLines.flatten] = some t ∧
      (t.pc.client = none ∧ .closed 4 ∉ t.log ∧ receivedFrom 4 t.log = [ledLines.flatten]) ∧
      sentTo 4 t.log = [ascii "ERR INVALID_COMMAND\n"] :=
    ⟨_, rfl, by decide, by decide⟩
  have hlen := (hclaim _ _ t hcut (session_servedChunks h ht.1)).2
  rw [ht.2] at hlen
  exact absurd hlen (by decide)

end RemoteDevice.Server
