import RemoteDevice.Server.Requests

/-! The end of the server process: `main` calls `service`, then `device_cleanup`, and returns. A
failing `epoll_wait` or `accept` and a `SIGPIPE` end the process inside `service`. -/

namespace RemoteDevice.Server
open CText

inductive MainPc
  | service
  | cleanedUp
  | returned
  deriving DecidableEq

structure Process (σ : Type) where
  service : State σ
  main : MainPc := .service
  /-- How often `device_cleanup` has been called, and whether `SIGTERM` has arrived. -/
  cleanups : Nat := 0
  signalled : Bool := false
  deriving DecidableEq

inductive Move
  | service (a : Action)
  | cleanup
  | exit
  deriving DecidableEq

variable {σ : Type}

def Process.step (api : DeviceApi σ) (deviceCleanup : σ → σ) (serverFd : Int) (p : Process σ) :
    Move → Option (Process σ)
  | .service a =>
    if p.main = .service then
      (Server.step api serverFd p.service a).map fun s =>
        { p with service := s, signalled := p.signalled || a = .sigterm }
    else none
  | .cleanup =>
    if p.main = .service ∧ p.service.pc = .left then
      some { p with
        service := { p.service with device := deviceCleanup p.service.device }
        main := .cleanedUp
        cleanups := p.cleanups + 1 }
    else none
  | .exit => if p.main = .cleanedUp then some { p with main := .returned } else none

def Pc.dead : Pc → Bool
  | .exited | .killed => true
  | _ => false

def Process.ended (p : Process σ) : Bool := p.main = .returned || p.service.pc.dead

/-- `epoll_wait` fails, `accept` fails, or the `send` of a reply raises `SIGPIPE`. -/
def fatal (s : State σ) : Action → Bool
  | .epollWait none | .accept none _ => true
  | .send .sigpipe =>
    match s.pc with
    | .sending fd _ _ => fd ≠ -1 && fd ∈ s.clientFds
    | _ => false
  | _ => false

def Move.fatal (s : State σ) : Move → Bool
  | .service a => Server.fatal s a
  | _ => false

variable {api : DeviceApi σ} {deviceCleanup : σ → σ} {serverFd : Int} {d : σ} {s t : State σ}
  {a : Action} {p q : Process σ} {m : Move}

/-! ## What a step of `service` means for the process -/

def quitExecuted (log : List Entry) : Prop :=
  ∃ fd command, Entry.executed fd command ∈ log ∧ command.type = .quit

structure Control (s : State σ) (a : Action) (t : State σ) : Prop where
  dead : t.pc.dead = fatal s a
  left : t.pc = .left → t.running = false
  running : t.running = s.running ∨ a = .sigterm ∨ quitExecuted t.log

theorem Control.of_ne_left (hdead : t.pc.dead = fatal s a) (hleft : t.pc ≠ .left)
    (hrunning : t.running = s.running) : Control s a t :=
  ⟨hdead, fun h => absurd h hleft, .inl hrunning⟩

theorem Control.resumed {events : List Ready} (hpc : t.pc = resume events)
    (hrunning : t.running = s.running) (hfatal : fatal s a = false) : Control s a t := by
  have hresume : (resume events).dead = false ∧ resume events ≠ .left := by
    unfold resume
    split <;> exact ⟨rfl, nofun⟩
  exact .of_ne_left (by rw [hpc, hfatal, hresume.1]) (hpc ▸ hresume.2) hrunning

theorem exec_control {fd : Int} {bytes : List UInt8} {events : List Ready} :
    Control s .exec (exec api s fd bytes events) := by
  refine ⟨rfl, nofun, ?_⟩
  have hrunning : (exec api s fd bytes events).running =
      (s.running && !raisesSigterm (ofBuffer bytes)) := rfl
  cases hquit : raisesSigterm (ofBuffer bytes) with
  | false =>
    rw [hquit] at hrunning
    exact .inl (hrunning.trans (Bool.and_true _))
  | true =>
    have htype : (commandParse (ofBuffer bytes)).type = .quit := of_decide_eq_true hquit
    exact .inr (.inr ⟨fd, _, List.mem_cons_of_mem _ List.mem_cons_self, htype⟩)

theorem step_control (h : step api serverFd s a = some t) : Control s a t := by
  cases step_branch h with
  | poll | waitFailed | acceptFailed | received => exact .of_ne_left rfl (by rintro ⟨⟩) rfl
  | ready | refused | accepted | skipped => exact .resumed rfl rfl rfl
  | dropped => exact .resumed rfl rfl rfl
  | leave hpc hrunning => exact ⟨rfl, fun _ => hrunning, .inl rfl⟩
  | executed => exact exec_control
  -- only the signal raised by a reply that is really sent ends the process
  | sent result fd response events hpc hfd =>
    cases result with
    | sigpipe => exact .of_ne_left (by simp [fatal, hpc, hfd, Pc.dead]) (by rintro ⟨⟩) rfl
    | sent | failed => exact .resumed rfl rfl rfl
  | unsent result fd response events hpc hfd =>
    cases result with
    | sigpipe => exact .resumed rfl rfl (by simpa [fatal, hpc] using hfd)
    | sent | failed => exact .resumed rfl rfl rfl
  | sigterm hpc =>
    refine ⟨?_, fun _ => rfl, .inr (.inl rfl)⟩
    change s.pc.dead = false
    cases hdead : s.pc with
    | exited => exact absurd hdead hpc.2.1
    | killed => exact absurd hdead hpc.2.2
    | _ => rfl

/-! ## Runs of the process -/

structure Orderly (p : Process σ) : Prop where
  /-- Once the process has ended, it has run `device_cleanup` once. -/
  cleaned : p.ended = true → p.cleanups = 1
  /-- The loop is left only with `running = 0`. -/
  left : p.service.pc = .left → p.service.running = false
  /-- Only a `QUIT` or `SIGTERM` makes it so. -/
  asked : p.service.running = false → p.signalled = true ∨ quitExecuted p.service.log

structure Ending (p : Process σ) : Prop extends Orderly p where
  alive : p.service.pc.dead = false
  serving : p.main = .service → p.cleanups = 0
  cleanedUp : p.main ≠ .service → p.cleanups = 1 ∧ p.service.pc = .left

theorem Ending.step (h : Ending p) (hst : p.step api deviceCleanup serverFd m = some q)
    (hfatal : m.fatal p.service = false) : Ending q := by
  cases m with
  | service a =>
    simp only [Process.step, Option.ite_none_right_eq_some, Option.map_eq_some_iff] at hst
    obtain ⟨hmain, t, ht, rfl⟩ := hst
    have hcontrol := step_control ht
    have halive : t.pc.dead = false := hcontrol.dead.trans hfatal
    refine ⟨⟨?_, hcontrol.left, ?_⟩, halive, h.serving, fun hne => absurd hmain hne⟩
    · intro hended
      simp [Process.ended, hmain, halive] at hended
    · intro hstopped
      -- the loop was asked to end before, by the signal, or by `QUIT`
      rcases hcontrol.running with hsame | hterm | hquit
      · refine (h.asked (hsame.symm.trans hstopped)).imp (fun hs => ?_) ?_
        · simp [hs]
        · rintro ⟨fd, c, hmem, hc⟩
          exact ⟨fd, c, step_log_suffix ht hmem, hc⟩
      · exact .inl (by simp [hterm])
      · exact .inr hquit
  | cleanup =>
    simp only [Process.step, Option.ite_none_right_eq_some] at hst
    obtain ⟨⟨hmain, hpc⟩, hst⟩ := hst
    cases hst
    have hcleanups : p.cleanups + 1 = 1 := by rw [h.serving hmain]
    exact ⟨⟨fun _ => hcleanups, h.left, h.asked⟩, h.alive, nofun, fun _ => ⟨hcleanups, hpc⟩⟩
  | exit =>
    simp only [Process.step, Option.ite_none_right_eq_some] at hst
    obtain ⟨hmain, hst⟩ := hst
    cases hst
    have hdone := h.cleanedUp (by simp [hmain])
    exact ⟨⟨fun _ => hdone.1, h.left, h.asked⟩, h.alive, nofun, fun _ => hdone⟩

theorem Ending.fatal (h : Ending p) (hst : p.step api deviceCleanup serverFd m = some q)
    (hfatal : m.fatal p.service = true) : q.ended = true ∧ q.cleanups = 0 := by
  cases m with
  | service a =>
    simp only [Process.step, Option.ite_none_right_eq_some, Option.map_eq_some_iff] at hst
    obtain ⟨hmain, t, ht, rfl⟩ := hst
    have hdead : t.pc.dead = true := (step_control ht).dead.trans hfatal
    exact ⟨by simp [Process.ended, hdead], h.serving hmain⟩
  | cleanup | exit => cases hfatal

def serving (d : σ) : Process σ := { service := { device := d } }

abbrev Unharmed (api : DeviceApi σ) (deviceCleanup : σ → σ) (serverFd : Int) (d : σ) :
    Process σ → Prop :=
  Runs.Reachable (· = serving d) (Runs.guarded (fun p m => m.fatal p.service = false)
    (Process.step api deviceCleanup serverFd))

theorem Unharmed.ending (h : Unharmed api deviceCleanup serverFd d p) : Ending p := by
  refine Runs.Reachable.invariant ?_ (fun p m q hp hst => ?_) h
  · rintro p rfl
    exact ⟨⟨nofun, nofun, nofun⟩, rfl, fun _ => rfl, fun hne => absurd rfl hne⟩
  · obtain ⟨hfatal, hst⟩ := Runs.guarded_eq_some.mp hst
    exact hp.step hst hfatal

/-- As long as `epoll_wait` and `accept` do not fail and no reply raises `SIGPIPE`, the process
ends only through `device_cleanup`, and the loop is left only after a `QUIT` or `SIGTERM`; the
first step of another kind ends the process without a cleanup. -/
theorem server_ends_through_cleanup (h : Unharmed api deviceCleanup serverFd d p) :
    Orderly p ∧ ∀ m q, p.step api deviceCleanup serverFd m = some q →
      (Orderly q ↔ m.fatal p.service = false) := by
  have hending := h.ending
  refine ⟨hending.toOrderly, fun m q hst => ⟨fun hq => ?_, fun hfatal => ?_⟩⟩
  · by_contra hne
    obtain ⟨hended, hnone⟩ := hending.fatal hst (by simpa using hne)
    have hone := hq.cleaned hended
    omega
  · exact (hending.step hst hfatal).toOrderly

def quitMoves : List Move :=
  [.poll, .epollWait (some [⟨3, true⟩]), .accept (some 4) true, .poll,
    .epollWait (some [⟨4, true⟩]), .recv (.data (ascii "QUIT\n")), .exec, .send .sent,
    .leave].map .service ++ [.cleanup, .exit]

theorem server_ends_after_quit : ∃ p : Process Unit, Unharmed quietApi id 3 () p ∧
    p.main = .returned ∧ p.cleanups = 1 ∧ p.service.running = false := by
  have hstart : Unharmed quietApi id 3 () (serving ()) := .start rfl
  obtain ⟨p, hp, hchecks⟩ := hstart.exists_of_run quitMoves
    (fun p => p.main = .returned && p.service.pc = .left) (by decide)
  simp only [Bool.and_eq_true, decide_eq_true_eq] at hchecks
  have horderly := (server_ends_through_cleanup hp).1
  exact ⟨p, hp, hchecks.1, horderly.cleaned (by simp [Process.ended, hchecks.1]),
    horderly.left hchecks.2⟩

/-- `SIGTERM` arrives in `epoll_wait`, which then fails: the process exits with the devices as
they are. -/
theorem sigterm_exits_without_cleanup : ¬ ∀ p : Process Unit,
    Runs.Reachable (· = serving ()) (Process.step quietApi id 3) p → Orderly p := by
  intro hclaim
  have hstart : Runs.Reachable (· = serving ()) (Process.step quietApi id 3) (serving ()) :=
    .start rfl
  obtain ⟨p, hp, hchecks⟩ := hstart.exists_of_run
    [.service .poll, .service .sigterm, .service (.epollWait none)]
    (fun p => p.ended && p.cleanups = 0 && p.signalled) (by decide)
  simp only [Bool.and_eq_true, decide_eq_true_eq] at hchecks
  have hone := (hclaim p hp).cleaned hchecks.1.1
  omega

end RemoteDevice.Server
