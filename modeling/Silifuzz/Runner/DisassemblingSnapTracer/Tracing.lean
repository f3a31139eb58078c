import Silifuzz.Common.HarnessTracer.Tracee
import Silifuzz.Runner.DisassemblingSnapTracer

/-!
# Tracing a snapshot

The stops at which the tracer examines an instruction of the snapshot, and what it knows of
them as long as it has injected no signal. An instruction that is single-stepped from an
examined stop is executed once at most.
-/

namespace Silifuzz.DisassemblingSnapTracer

open HarnessTracer

variable (t : DisassemblingSnapTracer)

def run (events : List Tracee.Event) : Option (Traced State × List Tracee.Entry) :=
  Traced.run t.arch .kSingleStep t.step State.start events

/-- `StepInstruction` is called at the stop. -/
def sees (stop : PtraceStop) (isActive : Bool) : Bool :=
  examined t.arch .kSingleStep stop isActive && t.inSnapshot stop.regs

def stopOf : Tracee.Entry → Option PtraceStop
  | .stopped stop isActive => if t.sees stop isActive then some stop else none
  | _ => none

/-- The stops at instructions of the snapshot that the tracer examines. -/
def stops (trace : List Tracee.Entry) : List PtraceStop := trace.filterMap t.stopOf

def originOf : Tracee.Entry → Option PtraceStop
  | .executed _ _ (some stop) =>
    if stop.stopSig ≠ SIGSTOP ∧ t.inSnapshot stop.regs then some stop else none
  | _ => none

/-- The stops from which instructions of the snapshot have been stepped. -/
def origins (trace : List Tracee.Entry) : List PtraceStop := trace.filterMap t.originOf

/-- The tracer has given the snapshot up. -/
def Injects (trace : List Tracee.Entry) : Prop :=
  ∃ stop, .injected stop SIGUSR1 ∈ trace ∧ t.inSnapshot stop.regs = true

/-- What a stop does to the tracer. -/
inductive Turn (s s' : State) (stop : PtraceStop) (isActive : Bool) (resume : Resume) : Prop where
  | unseen (not : t.sees stop isActive = false)
      (idle : resume.steps = true → stop.stopSig = SIGSTOP ∨ t.inSnapshot stop.regs = false)
      (count : SameCount s s')
      (same : s'.prevInstructionDecodingFailed = s.prevInstructionDecodingFailed)
  | kept (seen : t.sees stop isActive = true) (steps : resume = ⟨true, 0⟩)
      (count : s'.traceResult.instructionsExecuted = s.traceResult.instructionsExecuted + 1)
      (bounded : 0 < t.options.instructionCountLimit →
        (s.traceResult.instructionsExecuted : Int) ≤ t.options.instructionCountLimit)
      (known : Kept t s s' stop.regs stop.memory)
  | injected (seen : t.sees stop isActive = true) (signal : resume.signal = SIGUSR1)

variable {t}

theorem step_unseen {s s' : State} {stop : PtraceStop} {reason : CallbackReason}
    {m : ContinuationMode} (h : t.step s stop.regs stop.memory reason = some (s', m))
    (not : reason = .kSignalStop ∨ reason = .kBecomingInactive ∨ t.inSnapshot stop.regs = false) :
    SameCount s s' ∧ s'.prevInstructionDecodingFailed = s.prevInstructionDecodingFailed ∧
      m ≠ .kInjectSigusr1 := by
  unfold step at h
  split at h
  · cases h
    exact ⟨rfl, rfl, by decide⟩
  · cases h
    exact ⟨rfl, rfl, by decide⟩
  all_goals
    have out : t.inSnapshot stop.regs = false := by simpa using not
    rw [if_neg (by simp [out])] at h
    split at h
    · cases h
      exact ⟨rfl, rfl, by decide⟩
    · cases h
      exact ⟨rfl, rfl, by decide⟩

theorem step_seen {s s' : State} {regs : UserRegs} {memory : TraceeMemory}
    {reason : CallbackReason} {m : ContinuationMode}
    (h : t.step s regs memory reason = some (s', m)) (signal : reason ≠ .kSignalStop)
    (active : reason ≠ .kBecomingInactive) (inside : t.inSnapshot regs = true) :
    m = .kInjectSigusr1 ∨ (m = .kKeepTracing ∧
      s'.traceResult.instructionsExecuted = s.traceResult.instructionsExecuted + 1 ∧
      (0 < t.options.instructionCountLimit →
        (s.traceResult.instructionsExecuted : Int) ≤ t.options.instructionCountLimit) ∧
      Kept t s s' regs memory) := by
  cases reason with
  | kSignalStop => exact absurd rfl signal
  | kBecomingInactive => exact absurd rfl active
  | kSyscallStop | kSingleStepStop =>
    simp only [step, inside, if_true] at h
    obtain ⟨⟨s₁, r⟩, stepped, h⟩ := Option.bind_eq_some_iff.mp h
    cases h
    cases stepInstruction_kept stepped with
    | inl injects => exact .inl injects
    | inr kept =>
      obtain ⟨keeps, count, bounded, known⟩ := kept
      refine .inr ⟨keeps, count, bounded, ?_⟩
      cases known with
      | unfetched not same => exact .unfetched not same
      | undecoded host not failed => exact .undecoded host not failed
      | passed passes known same => exact .passed passes known same

theorem sees_active {stop : PtraceStop} {reason : CallbackReason}
    (known : callbackReason t.arch .kSingleStep stop = some reason)
    (toggle : stop.stopSig ≠ SIGSTOP) :
    t.sees stop true = true ↔ reason ≠ .kSignalStop ∧ t.inSnapshot stop.regs = true := by
  simp [sees, examined, known, toggle]

theorem callbackReason_active {stop : PtraceStop} {reason : CallbackReason}
    (known : callbackReason t.arch .kSingleStep stop = some reason) :
    reason ≠ .kBecomingInactive := by
  rintro rfl
  simp only [callbackReason] at known
  repeat' split at known
  all_goals cases known

theorem traceActive_turn {s s' : State} {stop : PtraceStop} {resume : Resume}
    (toggle : stop.stopSig ≠ SIGSTOP)
    (h : traceActive t.arch .kSingleStep t.step s stop = some (s', resume)) :
    Turn t s s' stop true resume := by
  obtain ⟨reason, known, h⟩ := Option.bind_eq_some_iff.mp h
  obtain ⟨⟨s₁, m⟩, called, h⟩ := Option.bind_eq_some_iff.mp h
  have active := callbackReason_active known
  by_cases seen : t.sees stop true = true
  · obtain ⟨signal, inside⟩ := (sees_active known toggle).mp seen
    cases step_seen called signal active inside with
    | inl injects =>
      subst injects
      obtain ⟨last, left, h⟩ := Option.bind_eq_some_iff.mp h
      cases h
      exact .injected seen rfl
    | inr kept =>
      obtain ⟨rfl, count, bounded, known⟩ := kept
      simp only [if_neg signal] at h
      cases h
      exact .kept seen rfl count bounded known
  · have unseen : reason = .kSignalStop ∨ reason = .kBecomingInactive ∨
        t.inSnapshot stop.regs = false := by
      by_cases signal : reason = .kSignalStop
      · exact .inl signal
      · right; right
        by_contra inside
        exact seen ((sees_active known toggle).mpr ⟨signal, by simpa using inside⟩)
    obtain ⟨count, same, calm⟩ := step_unseen called unseen
    have not : t.sees stop true = false := by simpa using seen
    cases m with
    | kInjectSigusr1 => exact absurd rfl calm
    | kKeepTracing =>
      cases h
      refine .unseen not (fun _ => .inr ?_) count same
      cases unseen with
      | inl signal =>
        subst signal
        simp [step] at called
      | inr other => exact other.resolve_left active
    | kStopTracing =>
      obtain ⟨⟨s₂, m₂⟩, left, h⟩ := Option.bind_eq_some_iff.mp h
      cases h
      obtain ⟨count', same', -⟩ := step_unseen left (.inr (.inl rfl))
      exact .unseen not (fun impossible => by cases impossible) (count'.trans count)
        (same'.trans same)

theorem trace_turn {s s' : State} {stop : PtraceStop} {isActive isActive' : Bool}
    {resume : Resume}
    (h : trace t.arch .kSingleStep t.step s isActive stop = some (s', isActive', resume)) :
    Turn t s s' stop isActive resume := by
  unfold trace at h
  split at h
  · rename_i toggle
    cases h
    have not : t.sees stop isActive = false := by simp [sees, examined, toggle]
    exact .unseen not (fun _ => .inl toggle) rfl rfl
  · rename_i toggle
    split at h
    · rename_i inactive
      cases h
      have not : t.sees stop isActive = false := by
        have : isActive = false := by simpa using inactive
        simp [sees, examined, this]
      exact .unseen not (fun impossible => by cases impossible) rfl rfl
    · rename_i active
      obtain ⟨⟨s₁, r⟩, traced, h⟩ := Option.map_eq_some_iff.mp h
      cases h
      have : isActive = true := by simpa using active
      rw [this]
      exact traceActive_turn toggle traced

@[simp] theorem stops_append (trace new : List Tracee.Entry) :
    t.stops (trace ++ new) = t.stops trace ++ t.stops new := List.filterMap_append

@[simp] theorem origins_append (trace new : List Tracee.Entry) :
    t.origins (trace ++ new) = t.origins trace ++ t.origins new := List.filterMap_append

theorem stops_turn (stop : PtraceStop) (isActive : Bool) (resume : Resume) :
    t.stops (.stopped stop isActive :: resume.entries stop) =
      if t.sees stop isActive then [stop] else [] := by
  unfold Resume.entries stops
  split <;> split <;> simp_all [stopOf]

theorem origins_turn (stop : PtraceStop) (isActive : Bool) (resume : Resume) :
    t.origins (.stopped stop isActive :: resume.entries stop) = [] := by
  unfold Resume.entries origins
  split <;> simp [originOf]

/-- Nothing was found against an instruction that was examined, if it could be. -/
structure Knows (t : DisassemblingSnapTracer) (s : State) (seen : List PtraceStop) : Prop where
  counted : s.traceResult.instructionsExecuted = seen.length
  within : 0 < t.options.instructionCountLimit →
    (seen.length : Int) ≤ t.options.instructionCountLimit + 1
  passed : ∀ stop ∈ seen, t.fetched stop.regs stop.memory → t.Decodes stop.regs stop.memory →
    t.Passes stop.regs stop.memory
  clean : s.prevInstructionDecodingFailed = false → ∀ stop ∈ seen,
    t.fetched stop.regs stop.memory → t.Decodes stop.regs stop.memory
  failed : s.prevInstructionDecodingFailed = true → t.arch = .kX86_64
  noticed : seen.Pairwise fun earlier later =>
    t.fetched earlier.regs earlier.memory → ¬ t.Decodes earlier.regs earlier.memory →
      t.fetched later.regs later.memory → ¬ t.Decodes later.regs later.memory

theorem knows_start (t : DisassemblingSnapTracer) : Knows t State.start [] where
  counted := rfl
  within := fun _ => by simp; omega
  passed := fun _ mem => by cases mem
  clean := fun _ _ mem => by cases mem
  failed := fun impossible => by cases impossible
  noticed := .nil

theorem Knows.unseen {s s' : State} {seen : List PtraceStop} (h : Knows t s seen)
    (count : SameCount s s')
    (same : s'.prevInstructionDecodingFailed = s.prevInstructionDecodingFailed) :
    Knows t s' seen := by
  constructor
  · rw [count, h.counted]
  · exact h.within
  · exact h.passed
  · rw [same]
    exact h.clean
  · rw [same]
    exact h.failed
  · exact h.noticed

theorem Knows.kept {s s' : State} {seen : List PtraceStop} {stop : PtraceStop}
    (h : Knows t s seen)
    (count : s'.traceResult.instructionsExecuted = s.traceResult.instructionsExecuted + 1)
    (bounded : 0 < t.options.instructionCountLimit →
      (s.traceResult.instructionsExecuted : Int) ≤ t.options.instructionCountLimit)
    (known : Kept t s s' stop.regs stop.memory) : Knows t s' (seen ++ [stop]) := by
  constructor
  · rw [count, h.counted, List.length_append, List.length_singleton]
  · intro limited
    have := bounded limited
    rw [h.counted] at this
    simp only [List.length_append, List.length_singleton]
    omega
  · intro last mem fetched decodes
    cases List.mem_append.mp mem with
    | inl old => exact h.passed last old fetched decodes
    | inr new =>
      cases List.mem_singleton.mp new
      cases known with
      | unfetched not => exact absurd fetched not
      | undecoded _ not => exact absurd decodes not
      | passed passes => exact passes
  · intro fine last mem fetched
    cases List.mem_append.mp mem with
    | inl old =>
      cases known with
      | unfetched _ same | passed _ _ same => exact h.clean (same ▸ fine) last old fetched
      | undecoded _ _ failed => rw [failed] at fine; cases fine
    | inr new =>
      cases List.mem_singleton.mp new
      cases known with
      | unfetched not => exact absurd fetched not
      | undecoded _ _ failed => rw [failed] at fine; cases fine
      | passed passes => exact passes.decodes
  · intro failed
    cases known with
    | unfetched _ same | passed _ _ same => exact h.failed (same ▸ failed)
    | undecoded host => exact host
  · apply List.pairwise_append.mpr
    refine ⟨h.noticed, List.pairwise_singleton _ _, ?_⟩
    intro earlier mem last new fetched not later decodes
    cases List.mem_singleton.mp new
    cases known with
    | unfetched unread => exact unread later
    | undecoded _ undecoded => exact undecoded decodes
    | passed _ fine =>
      have failed : s.prevInstructionDecodingFailed = true := by
        by_contra clean
        exact not (h.clean (by simpa using clean) earlier mem fetched)
      rw [fine (h.failed failed)] at failed
      cases failed

/-- The instructions that have been stepped are among those that have been examined, and
the next one to be stepped is the last one. -/
def Follows (t : DisassemblingSnapTracer) (tracee : Tracee) (seen stepped : List PtraceStop) :
    Prop :=
  match tracee with
  | .running | .trapping => stepped.Sublist seen
  | .stepping stop =>
    if stop.stopSig ≠ SIGSTOP ∧ t.inSnapshot stop.regs then
      ∃ older, seen = older ++ [stop] ∧ stepped.Sublist older
    else stepped.Sublist seen

theorem Follows.sublist {tracee : Tracee} {seen stepped : List PtraceStop}
    (h : Follows t tracee seen stepped) : stepped.Sublist seen := by
  unfold Follows at h
  split at h
  · exact h
  · exact h
  · split at h
    · obtain ⟨older, rfl, among⟩ := h
      exact among.trans (List.sublist_append_left _ _)
    · exact h

/-- What holds as long as no signal is injected. -/
structure Sound (t : DisassemblingSnapTracer) (s : Traced State) (trace : List Tracee.Entry) :
    Prop where
  knows : Knows t s.callbackState (t.stops trace)
  follows : Follows t s.tracee (t.stops trace) (t.origins trace)

theorem Sound.singleStep {s : Traced State} {trace : List Tracee.Entry} {stop : PtraceStop}
    (h : Sound t s trace) (steps : s.tracee = .stepping stop) :
    Sound t { s with tracee := .trapping }
      (trace ++ [.executed stop.regs stop.memory (some stop)]) := by
  obtain ⟨knows, follows⟩ := h
  have same : t.stops (trace ++ [.executed stop.regs stop.memory (some stop)]) =
      t.stops trace := by
    rw [stops_append]
    exact List.append_nil _
  constructor
  · rw [same]
    exact knows
  · rw [same, origins_append]
    simp only [Follows, steps] at follows ⊢
    by_cases counts : stop.stopSig ≠ SIGSTOP ∧ t.inSnapshot stop.regs
    · have one : t.origins [.executed stop.regs stop.memory (some stop)] = [stop] := by
        simp [origins, originOf, counts]
      rw [if_pos counts] at follows
      obtain ⟨older, last, among⟩ := follows
      rw [one, last]
      exact among.append_right [stop]
    · have none : t.origins [.executed stop.regs stop.memory (some stop)] = [] := by
        simp only [origins, List.filterMap_cons, originOf, if_neg counts, List.filterMap_nil]
      rw [if_neg counts] at follows
      rw [none, List.append_nil]
      exact follows

theorem Sound.stop {s : Traced State} {trace : List Tracee.Entry} {stop : PtraceStop}
    {s' : State} {isActive : Bool} {resume : Resume} (h : Sound t s trace)
    (turn : Turn t s.callbackState s' stop s.isActive resume) (calm : resume.signal = SIGUSR1 →
      t.sees stop s.isActive = false) :
    Sound t ⟨s', isActive, resume.tracee stop⟩
      (trace ++ .stopped stop s.isActive :: resume.entries stop) := by
  obtain ⟨knows, follows⟩ := h
  have among := follows.sublist
  constructor
  · rw [stops_append, stops_turn]
    cases turn with
    | unseen not _ count same =>
      rw [if_neg (by simp [not]), List.append_nil]
      exact knows.unseen count same
    | kept seen _ count bounded known =>
      rw [if_pos seen]
      exact knows.kept count bounded known
    | injected seen signal =>
      rw [calm signal] at seen
      cases seen
  · rw [stops_append, stops_turn, origins_append, origins_turn, List.append_nil]
    cases turn with
    | unseen not idle =>
      rw [if_neg (by simp [not]), List.append_nil]
      unfold Resume.tracee
      split
      · rename_i steps
        split
        · have skipped : ¬ (stop.stopSig ≠ SIGSTOP ∧ t.inSnapshot stop.regs) := by
            rintro ⟨toggle, inside⟩
            cases idle steps with
            | inl sigstop => exact toggle sigstop
            | inr outside => rw [outside] at inside; cases inside
          rw [Follows, if_neg skipped]
          exact among
        · exact among
      · exact among
    | kept seen steps =>
      rw [steps, if_pos seen]
      by_cases counts : stop.stopSig ≠ SIGSTOP ∧ t.inSnapshot stop.regs
      · simp only [Resume.tracee, if_true, Follows, if_pos counts]
        exact ⟨_, rfl, among⟩
      · simp only [Resume.tracee, if_true, Follows, if_neg counts]
        exact among.trans (List.sublist_append_left _ _)
    | injected seen signal =>
      rw [calm signal] at seen
      cases seen

theorem step_sound {s s' : Traced State} {trace new : List Tracee.Entry} {event : Tracee.Event}
    (h : t.Injects trace ∨ Sound t s trace)
    (next : Traced.step t.arch .kSingleStep t.step s event = some (s', new)) :
    t.Injects (trace ++ new) ∨ Sound t s' (trace ++ new) := by
  cases h with
  | inl injects =>
    obtain ⟨stop, mem, inside⟩ := injects
    exact .inl ⟨stop, List.mem_append_left new mem, inside⟩
  | inr sound =>
    cases event with
    | execute regs memory =>
      right
      simp only [Traced.step] at next
      split at next
      · cases next
      all_goals
        cases next
        constructor
        · rw [stops_append]
          exact (List.append_nil _).symm ▸ sound.knows
        · rw [stops_append, origins_append]
          exact (List.append_nil _).symm ▸ (List.append_nil _).symm ▸ sound.follows
    | singleStep =>
      simp only [Traced.step] at next
      split at next
      · rename_i stop steps
        cases next
        exact .inr (sound.singleStep steps)
      all_goals cases next
    | stop stop =>
      obtain ⟨⟨after, isActive, resume⟩, traced, next⟩ := Option.map_eq_some_iff.mp next
      cases next
      by_cases calm : resume.signal = SIGUSR1 → t.sees stop s.isActive = false
      · exact .inr (sound.stop (trace_turn traced) calm)
      · left
        push Not at calm
        obtain ⟨signal, seen⟩ := calm
        have inside : t.inSnapshot stop.regs = true := by
          simp only [sees, Bool.and_eq_true, Bool.not_eq_false, ne_eq] at seen
          exact seen.2
        refine ⟨stop, ?_, inside⟩
        simp [Resume.entries, signal, SIGUSR1]

/-- A run in which the tracer does not give up is sound. -/
theorem run_sound {events : List Tracee.Event} {s : Traced State} {trace : List Tracee.Entry}
    (ran : t.run events = some (s, trace)) (calm : ¬ t.Injects trace) : Sound t s trace := by
  have all : t.Injects trace ∨ Sound t s trace := by
    apply Schedules.run_after (P := fun s trace => t.Injects trace ∨ Sound t s trace) ?_ ?_ ran
    · right
      constructor
      · exact knows_start t
      · exact List.Sublist.refl _
    · intro s trace event s' new holds next
      exact step_sound holds next
  exact all.resolve_left calm

end Silifuzz.DisassemblingSnapTracer
