import RemoteDevice.Command.Report
import RemoteDevice.Server.Clients

/-! The replies as the clients receive them: a client that reads lines, however the stream is cut on
its way, reads the replies one by one. -/

namespace RemoteDevice.Server
open CText Framing

variable {σ : Type} {api : DeviceApi σ} {serverFd fd : Int} {d : σ} {s t : State σ} {a : Action}
  {log : List Entry} {response : CText}

abbrev Running (api : DeviceApi σ) (serverFd : Int) (d : σ) : State σ → Prop :=
  Runs.Reachable (· = { device := d }) (Server.step api serverFd)

structure Replying (s : State σ) : Prop where
  sent : ∀ fd response, .sent fd response ∈ s.log → IsReply response
  sending : ∀ fd response events, s.pc = .sending fd response events → IsReply response

theorem not_sending {events : List Ready} (hpc : s.pc.client = none) :
    s.pc ≠ .sending fd response events := by
  intro hsending
  rw [hsending] at hpc
  exact absurd hpc (Option.some_ne_none fd)

theorem Replying.entry (h : Replying s) {e : Entry} (hlog : t.log = e :: s.log)
    (he : ∀ fd response, e = .sent fd response → IsReply response) (hpc : t.pc.client = none) :
    Replying t where
  sent := by
    intro fd response hmem
    rw [hlog] at hmem
    rcases List.mem_cons.mp hmem with heq | hmem
    · exact he fd response heq.symm
    · exact h.sent fd response hmem
  sending := fun _ _ _ hsending => absurd hsending (not_sending hpc)

theorem Replying.step (hapi : api.ReturnsInts) (h : Replying s)
    (hstep : Server.step api serverFd s a = some t) : Replying t := by
  cases step_effect hstep with
  | quiet hpc hlog =>
    refine ⟨hlog ▸ h.sent, fun fd response events hsending => ?_⟩
    rcases hpc with hpc | ⟨-, hpc⟩
    · exact h.sending fd response events (hpc.symm.trans hsending)
    · exact absurd hsending (not_sending hpc)
  | accepted fd hpc hlog | closed fd hpc hlog => exact h.entry hlog (by rintro _ _ ⟨⟩) hpc.2
  | received fd bytes events hpc hpc' hlog =>
    refine ⟨fun f response hmem => ?_, fun f response events' hsending => ?_⟩
    · rw [hlog] at hmem
      rcases List.mem_cons.mp hmem with heq | hmem
      · cases heq
      · exact h.sent f response hmem
    · cases hpc'.symm.trans hsending
  | executed fd bytes events hpc ht =>
    subst ht
    refine ⟨fun f response hmem => ?_, fun f response events' hsending => ?_⟩
    · have hlogged : (exec api s fd bytes events).log = .logged fd _ _ ::
          .executed fd (chunkCommand bytes) :: s.log := rfl
      rw [hlogged] at hmem
      rcases List.mem_cons.mp hmem with heq | hmem
      · cases heq
      rcases List.mem_cons.mp hmem with heq | hmem
      · cases heq
      · exact h.sent f response hmem
    · cases hsending
      exact execCommand_isReply hapi (ofBuffer bytes) s.device
  | sent fd response events hpc hpc' hlog =>
    have hreply := h.sending fd response events hpc
    split at hlog
    · refine h.entry hlog ?_ hpc'
      rintro _ _ ⟨⟩
      exact hreply
    · exact ⟨hlog ▸ h.sent, fun _ _ _ hsending => absurd hsending (not_sending hpc')⟩

theorem Running.replying (hapi : api.ReturnsInts) (h : Running api serverFd d s) : Replying s := by
  refine h.invariant ?_ fun s a t hs hstep => hs.step hapi hstep
  rintro _ rfl
  exact ⟨fun _ _ hmem => absurd hmem List.not_mem_nil, by rintro _ _ _ ⟨⟩⟩

theorem sent_of_mem_sentTo (h : response ∈ sentTo fd log) : .sent fd response ∈ log := by
  obtain ⟨e, he, hsent⟩ := List.mem_filterMap.mp h
  have hmem : e ∈ log := List.mem_reverse.mp (List.mem_filter.mp he).1
  cases e with
  | sent f r =>
    obtain ⟨rfl, heq⟩ := Option.ite_none_right_eq_some.mp hsent
    cases heq
    exact hmem
  | accepted | closed | received | executed | logged => cases hsent

def readText (reply : CText) : CText := reply.dropLast

theorem stream_readText {replies : List CText} (h : ∀ r ∈ replies, IsReply r) :
    replies.flatten = stream lineEnd (replies.map readText) ∧ ∀ w ∈ replies.map readText, lineEnd ∉ w := by
  have htext : ∀ r ∈ replies, r = frame lineEnd (readText r) ∧ lineEnd ∉ readText r := by
    intro r hr
    obtain ⟨s, hend, rfl⟩ := (h r hr).lineEnd_not_mem
    have hread : readText (frame lineEnd s) = s := List.dropLast_concat
    rw [hread]
    exact ⟨rfl, hend⟩
  constructor
  · rw [stream, List.flatMap_map, List.flatten_eq_flatMap]
    apply List.flatMap_congr
    intro r hr
    exact (htext r hr).1
  · intro w hw
    obtain ⟨r, hr, rfl⟩ := List.mem_map.mp hw
    exact (htext r hr).2

/-- In every run each reply is one line, and of whatever has arrived of the replies to a client the
complete lines are the first of them, all of them once everything has arrived. -/
theorem replies_framed (hapi : api.ReturnsInts) (h : Running api serverFd d s) (fd : Int) :
    (∀ r ∈ sentTo fd s.log, IsReply r) ∧
      complete lineEnd (sentTo fd s.log).flatten = (sentTo fd s.log).map readText ∧
      ∀ arrived, arrived <+: (sentTo fd s.log).flatten →
        complete lineEnd arrived <+: (sentTo fd s.log).map readText := by
  have hreplies : ∀ r ∈ sentTo fd s.log, IsReply r := fun r hr =>
    (h.replying hapi).sent fd r (sent_of_mem_sentTo hr)
  obtain ⟨hstream, hend⟩ := stream_readText hreplies
  have hall : complete lineEnd (sentTo fd s.log).flatten = (sentTo fd s.log).map readText := by
    rw [hstream, complete_stream hend]
  refine ⟨hreplies, hall, fun arrived harrived => ?_⟩
  rw [← hall]
  exact complete_mono harrived

theorem quietApi_returnsInts : quietApi.ReturnsInts :=
  ⟨fun _ => (by decide : IsInt (-1)), fun _ => (by decide : IsInt 0), fun _ => (by decide : IsInt 0)⟩

theorem replies_framed_status : ∃ s : State Unit, Running quietApi 3 () s ∧
    (sentTo 4 s.log).length = 2 ∧
    (∀ r ∈ sentTo 4 s.log, IsReply r) ∧
      complete lineEnd (sentTo 4 s.log).flatten = (sentTo 4 s.log).map readText ∧
      ∀ arrived, arrived <+: (sentTo 4 s.log).flatten →
        complete lineEnd arrived <+: (sentTo 4 s.log).map readText := by
  have hstart : Running quietApi 3 () { device := () } := .start rfl
  obtain ⟨s, hs, hlength⟩ := hstart.exists_of_run
    (connectSteps 4 ++ clientSteps 4 (ascii "STATUS\n") ++ clientSteps 4 (ascii "LED\n"))
    (fun s => (sentTo 4 s.log).length = 2) (by decide +kernel)
  exact ⟨s, hs, of_decide_eq_true hlength, replies_framed quietApi_returnsInts hs 4⟩

/-- The replies to `STATUS` and `PLUGIN LIST` are read back as what the device manager returned. -/
theorem reports_read_back (hapi : api.ReturnsInts) (line : CText) (d : σ) :
    ((commandParse line).type = .status →
      readStatus ((execCommand api line).run d).1 = some (api.deviceGetStatus.run d).1) ∧
    ((commandParse line).type = .pluginList →
      readPlugins ((execCommand api line).run d).1 = some (api.pluginGetStatus.run d).1) := by
  constructor
  · intro htype
    have hreply : ((execCommand api line).run d).1 =
        snprintf (statusText (api.deviceGetStatus.run d).1) := by
      rw [execCommand, execParsed, htype]
      rfl
    have hlight := hapi.lightValue d
    have hsegment := hapi.segmentValue d
    have hlength := statusText_length hlight hsegment
    rw [hreply, snprintf_eq (Nat.lt_of_le_of_lt hlength (by decide))]
    exact readStatus_statusText hlight hsegment
  · intro htype
    have hreply : ((execCommand api line).run d).1 =
        snprintf (pluginsText (api.pluginGetStatus.run d).1) := by
      rw [execCommand, execParsed, htype]
      rfl
    have hlength := pluginsText_length (api.pluginGetStatus.run d).1
    rw [hreply, snprintf_eq (Nat.lt_of_le_of_lt hlength (by decide))]
    exact readPlugins_pluginsText _

theorem reports_read_back_quiet :
    readStatus ((execCommand quietApi (ascii "status\n")).run ()).1 =
        some ⟨true, false, false, -1, false, 0⟩ ∧
      readPlugins ((execCommand quietApi (ascii "Device List")).run ()).1 =
        some ⟨true, true, true, true⟩ :=
  ⟨(reports_read_back quietApi_returnsInts (ascii "status\n") ()).1 (by decide),
    (reports_read_back quietApi_returnsInts (ascii "Device List") ()).2 (by decide)⟩

end RemoteDevice.Server
