import Sm120.Gemm.Driver

namespace Sm120.Gemm

open Lib

deriving instance DecidableEq for GemmShape

/-- What the driver creates, by the number of the call. -/
inductive Resource
  | handle (n : ℕ)
  | stream (n : ℕ)
  | event (n : ℕ)
  | file (n : ℕ)
deriving DecidableEq

inductive Work
  | kernel (config : GemmConfig) (shape : GemmShape)
  | cublas (shape : GemmShape)
deriving DecidableEq

/-- An event that is recorded, and the work that was put before it. -/
structure Mark where
  event : ℕ
  stream : ℕ
  work : List (Work × Option ℕ)

/-- The process as CUDA, cuBLAS and the file system see it; lists have their last entry first. A
stream that is missing is the default one. -/
structure Session where
  live : List Resource := []
  /-- the stream of a handle -/
  binding : ℕ → Option ℕ := fun _ ↦ none
  work : List (Work × Option ℕ) := []
  /-- the streams on which work may not have ended -/
  pending : List (Option ℕ) := []
  marks : List Mark := []
  /-- the last mark has been waited for -/
  waited : Bool := false
  timed : List (Work × ℚ≥0) := []
  /-- what cuBLAS computed last, and for which shape -/
  reference : Option (GemmShape × List Value) := none
  /-- the work before the open profiler region -/
  region : Option (List (Work × Option ℕ)) := none
  /-- the work before and in every region that is closed -/
  profiled : List (List (Work × Option ℕ) × List (Work × Option ℕ)) := []
  written : List (List Char) := []
  /-- no check has failed, and every C agrees with its reference -/
  clean : Bool := true
  /-- every handle and stream was given back without an error -/
  released : Bool := true

namespace Session

section Effects

variable (s : Session)

def push (x : Resource) : Session := { s with live := x :: s.live }

def pop : Session := { s with live := s.live.tail }

def giveBack (ok : Bool) : Session := { s with live := s.live.tail, released := s.released && ok }

def bound (binding : ℕ → Option ℕ) : Session := { s with binding := binding }

def spoil : Session := { s with clean := false }

def put (w : Work) (stream : Option ℕ) : Session :=
  { s with work := (w, stream) :: s.work, pending := stream :: s.pending }

def mark (event stream : ℕ) : Session :=
  { s with marks := ⟨event, stream, s.work⟩ :: s.marks, waited := false }

def drain (stream : ℕ) : Session := { s with pending := s.pending.filter (· ≠ some stream) }

def wait : Session := { s with waited := true }

/-- The work that `cudaEventElapsedTime` measures: on one stream, as often as is divided by, and
after the warm-up. -/
def window (start stop : ℕ) : Bool :=
  match s.marks with
  | last :: first :: _ =>
    s.waited && last.event = stop && first.event = start && last.stream = first.stream &&
      last.work.head?.any fun w ↦ w.2 = some first.stream &&
        first.work.take kWarmupIterations = List.replicate kWarmupIterations w &&
          last.work = List.replicate kBenchmarkIterations w ++ first.work
  | _ => false

def time (elapsedMs : ℚ≥0) : Session :=
  match s.marks with
  | ⟨_, _, w :: _⟩ :: _ => { s with timed := (w.1, elapsedMs / kBenchmarkIterations) :: s.timed }
  | _ => s

def comparable (cols : ℕ) : Bool :=
  match s.work, s.reference with
  | (.kernel _ shape, _) :: _, some (shape', _) => shape' = shape && shape.N = cols
  | _, _ => false

def agrees (actual : List Value) (cols : ℕ) : Bool :=
  match s.reference with
  | some (_, reference) => (verifyResult actual reference cols .default false).1
  | none => false

def isReference : Bool :=
  match s.work with
  | (.cublas _, _) :: _ => true
  | _ => false

def setReference (data : List Value) : Session :=
  match s.work with
  | (.cublas shape, _) :: _ => { s with reference := some (shape, data) }
  | _ => s

def closeRegion : Session :=
  match s.region with
  | some work =>
    { s with
      region := none
      profiled := (work, s.work.take (s.work.length - work.length)) :: s.profiled }
  | none => s

end Effects

/-- What may be called: only what is live is used, and the last that was created is given back
first; no kernel runs on a shape that it does not divide; nothing is copied or profiled while work
is pending; C is compared with the reference for its shape. -/
def allows (s : Session) : ApiCall → Bool
  | .cublasDestroy h => s.live.head? = some (.handle h)
  | .cublasSetStream h stream => .handle h ∈ s.live && .stream stream ∈ s.live
  | .cublasGemmEx h _ =>
    .handle h ∈ s.live && (s.binding h).all fun stream ↦ .stream stream ∈ s.live
  | .cudaStreamDestroy stream => s.live.head? = some (.stream stream)
  | .cudaStreamSynchronize stream => .stream stream ∈ s.live
  | .cudaEventDestroy e => s.live.head? = some (.event e)
  | .cudaEventRecord e stream => .event e ∈ s.live && .stream stream ∈ s.live
  | .cudaEventSynchronize e => .event e ∈ s.live && s.marks.head?.any fun m ↦ m.event = e
  | .cudaEventElapsedTime start stop =>
    .event start ∈ s.live && .event stop ∈ s.live && s.window start stop
  | .cudaProfilerStart => s.region.isNone && s.pending = []
  | .cudaProfilerStop => s.region.isSome
  | .launchKernel config shape stream =>
    configSupportsProblem config shape.M shape.N shape.K && stream.all fun stream ↦
    .stream stream ∈ s.live
  | .copyReference => s.pending = [] && s.isReference
  | .copyActual cols => s.pending = [] && s.comparable cols
  | .fputs f _ => .file f ∈ s.live
  | .fclose f => s.live.head? = some (.file f)
  | _ => true

/-- What a call leads to. A checked call that fails does nothing else. -/
def next (s : Session) (n : ℕ) (a : ApiCall) (r : Reply) : Session :=
  match a with
  | .cublasDestroy _ | .cudaStreamDestroy _ => s.giveBack r.ok
  | .cudaEventDestroy _ => s.pop
  | .cudaProfilerStart => { s with region := some s.work }
  | .cudaProfilerStop => s.closeRegion
  | .launchKernel config shape stream => s.put (.kernel config shape) stream
  | .fclose _ => if r.ok then s.pop else s.pop.spoil
  | a =>
    if r.ok then
      match a with
      | .cublasCreate => (s.push (.handle n)).bound (Function.update s.binding n none)
      | .cublasSetStream h stream => s.bound (Function.update s.binding h (some stream))
      | .cublasGemmEx h shape => s.put (.cublas shape) (s.binding h)
      | .cudaStreamCreateWithFlags => s.push (.stream n)
      | .cudaStreamSynchronize stream => s.drain stream
      | .cudaDeviceSynchronize => { s with pending := [] }
      | .cudaEventCreate => s.push (.event n)
      | .cudaEventRecord e stream => s.mark e stream
      | .cudaEventSynchronize _ => s.wait
      | .cudaEventElapsedTime _ _ => s.time r.elapsedMs
      | .copyReference => s.setReference r.data
      | .copyActual cols => if s.agrees r.data cols then s else s.spoil
      | .fopen => { s.push (.file n) with written := [] }
      | .fputs _ line => { s with written := s.written ++ [line] }
      | _ => s
    else s.spoil

end Session

def session : Protocol ApiCall Reply Session where
  start := {}
  step s n a r := if s.allows a then some (s.next n a r) else none

namespace Session

/-- Where a call inside of `gemm_tn` or of `thrust` ends the process. -/
def Aborts (e : Ending) (s : Session) : Prop := (e = .exit exitFailure ∨ e = .abort) ∧
    s.clean = false

section Rules

variable {α : Type} {s t f : Session} {a : ApiCall} {E : Ending → Session → Prop}

theorem spec_call {Q : ℕ × Reply → Session → Prop} (h : s.allows a = true)
    (hq : ∀ n r, Q (n, r) (s.next n a r)) : session.Spec s (Prog.call a) Q E :=
  .call fun n r ↦ ⟨s.next n a r, if_pos h, hq n r⟩

theorem spec_step {p : ℕ × Reply → Driver α} {Q : α → Session → Prop} (h : s.allows a = true)
    (hp : ∀ n r, session.Spec (s.next n a r) (p (n, r)) Q E) :
    session.Spec s (Prog.call a >>= p) Q E := by
  refine (spec_call (Q := fun x s' ↦ s' = s.next x.1 a x.2) h fun n r ↦ rfl).bind ?_
  rintro ⟨n, r⟩ s' rfl
  exact hp n r

theorem spec_answer {p : ℕ × Reply → Driver α} {Q : α → Session → Prop} {t : ℕ → Reply → Session}
    (h : s.allows a = true) (hnext : ∀ n r, s.next n a r = if r.ok then t n r else f)
    (ht : ∀ n r, r.ok = true → session.Spec (t n r) (p (n, r)) Q E)
    (hf : ∀ n r, r.ok = false → session.Spec f (p (n, r)) Q E) :
    session.Spec s (Prog.call a >>= p) Q E := by
  refine spec_step h fun n r ↦ ?_
  cases hok : r.ok with
  | true =>
    rw [hnext, if_pos hok]
    exact ht n r hok
  | false =>
    rw [hnext, if_neg (by rw [hok]; decide)]
    exact hf n r hok

theorem spec_check (h : s.allows a = true) (hnext : ∀ n r, s.next n a r = if r.ok then t else f) :
    session.Spec s (check a) (fun b s' ↦ if b then s' = t else s' = f) E := by
  refine spec_answer h hnext (fun n r hok ↦ .ret ?_) fun n r hok ↦ .ret ?_
  · rw [hok]
    rfl
  · rw [hok]
    rfl

theorem spec_test {q q' : Driver α} {Q : α → Session → Prop} (h : s.allows a = true)
    (hnext : ∀ n r, s.next n a r = if r.ok then t else f) (hq : session.Spec t q Q E)
    (hq' : session.Spec f q' Q E) :
    session.Spec s (check a >>= fun b ↦ if b then q else q') Q E := by
  refine .cond (T := (· = t)) (F := (· = f)) (spec_check h hnext) ?_ ?_
  · rintro s' rfl
    exact hq
  · rintro s' rfl
    exact hq'

theorem spec_cuteCheck (h : s.allows a = true)
    (hnext : ∀ n r, s.next n a r = if r.ok then s else s.spoil) :
    session.Spec s (cuteCheck a) (fun _ s' ↦ s' = s) Aborts :=
  spec_test h hnext (.ret rfl) (.exit ⟨.inl rfl, rfl⟩)

theorem spec_orThrow {t : Reply → Session} (h : s.allows a = true)
    (hnext : ∀ n r, s.next n a r = if r.ok then t r else s.spoil) :
    session.Spec s (orThrow a) (fun r s' ↦ s' = t r) Aborts := by
  refine spec_answer h hnext (fun n r hok ↦ ?_) fun n r hok ↦ ?_
  · simp only [hok, if_true]
    exact .ret rfl
  · simp only [hok, Bool.false_eq_true, if_false]
    exact .exit ⟨.inr rfl, rfl⟩

theorem withDevice_spec {p : Driver α} {Q : α → Session → Prop} (h : s.allows a = true)
    (hnext : ∀ n r, s.next n a r = if r.ok then s else s.spoil) (hp : session.Spec s p Q Aborts) :
    session.Spec s (withDevice a p) Q Aborts := by
  refine (spec_orThrow (t := fun _ ↦ s) h hnext).bind ?_
  rintro - s' rfl
  refine hp.bind fun result s'' hresult ↦ ?_
  refine (spec_orThrow (s := s'') (t := fun _ ↦ s'') rfl fun n r ↦ rfl).bind ?_
  rintro - s''' rfl
  exact .ret hresult

theorem withProblem_spec {shape : GemmShape} {p : Driver α} {Q : α → Session → Prop}
    (hp : session.Spec s p Q Aborts) : session.Spec s (withProblem shape p) Q Aborts := by
  have hvector (size : ℕ) :
      session.Spec s (orThrow (.hostVector size)) (fun _ s' ↦ s' = s) Aborts :=
    spec_orThrow rfl fun n r ↦ rfl
  refine (hvector _).bind ?_
  rintro - s' rfl
  refine (hvector _).bind ?_
  rintro - s' rfl
  refine (hvector _).bind ?_
  rintro - s' rfl
  refine withDevice_spec rfl (fun n r ↦ rfl) (withDevice_spec rfl (fun n r ↦ rfl) ?_)
  exact withDevice_spec rfl (fun n r ↦ rfl) hp

end Rules

section Launches

variable {s : Session} {config : GemmConfig} {shape : GemmShape}

theorem gemmTn_spec {stream : Option ℕ}
    (hsupport : configSupportsProblem config shape.M shape.N shape.K = true)
    (hstream : ∀ n ∈ stream, .stream n ∈ s.live) :
    session.Spec s (gemmTn config shape stream) (fun _ s' ↦ s' =
      s.put (.kernel config shape) stream) Aborts := by
  have hdiv : ¬(shape.M % config.bm ≠ 0 ∨ shape.N % config.bn ≠ 0 ∨ shape.K % config.bk ≠ 0) := by
    simpa [configSupportsProblem, and_assoc] using hsupport
  rw [gemmTn, if_neg hdiv]
  refine (spec_cuteCheck rfl fun n r ↦ rfl).bind ?_
  rintro - s' rfl
  refine (spec_cuteCheck rfl fun n r ↦ rfl).bind ?_
  rintro - s' rfl
  have hallows : s'.allows (.launchKernel config shape stream) = true := by
    cases stream with
    | none => simpa [allows] using hsupport
    | some n => simpa [allows, hsupport] using hstream
  refine spec_step hallows fun n r ↦ ?_
  exact spec_cuteCheck (s := s'.put (.kernel config shape) stream) rfl fun n r ↦ rfl

def lost (s : Session) (work : List (Work × Option ℕ)) (pending : List (Option ℕ)) : Session :=
  { s with work := work, pending := pending, clean := false }

/-- While what is live in `s` is, `launch` puts `w` on the stream. -/
def Launches (s : Session) (stream : ℕ) (w : Work) (launch : Driver Bool) : Prop :=
  ∀ s', s.live ⊆ s'.live → s'.binding = s.binding → session.Spec s' launch
    (fun b s'' ↦ if b then s'' = s'.put w (some stream) else ∃ work pending,
      s'' = s'.lost work pending) Aborts

theorem launch_exact {stream : ℕ}
    (hsupport : configSupportsProblem config shape.M shape.N shape.K = true)
    (hstream : .stream stream ∈ s.live) : session.Spec s (launch config shape stream)
      (fun b s' ↦ if b then s' = s.put (.kernel config shape) (some stream) else
        s' = (s.put (.kernel config shape) (some stream)).spoil) Aborts := by
  refine (gemmTn_spec hsupport ?_).bind ?_
  · intro n hn
    rw [Option.mem_def, Option.some_inj] at hn
    rw [← hn]
    exact hstream
  · rintro - s' rfl
    exact spec_check rfl fun n r ↦ rfl

theorem launch_spec {stream : ℕ}
    (hsupport : configSupportsProblem config shape.M shape.N shape.K = true)
    (hstream : .stream stream ∈ s.live) :
    s.Launches stream (.kernel config shape) (launch config shape stream) := by
  intro s' hlive _
  refine (launch_exact hsupport (hlive hstream)).mono ?_ fun e s'' h ↦ h
  intro b s'' h
  cases b with
  | true => exact h
  | false => exact ⟨_, _, h⟩

theorem cublas_spec {stream handle : ℕ} (hhandle : .handle handle ∈ s.live)
    (hstream : .stream stream ∈ s.live) (hbinding : s.binding handle = some stream) :
    s.Launches stream (.cublas shape) (check (.cublasGemmEx handle shape)) := by
  intro s' hlive hs'
  have hbound : s'.binding handle = some stream := by rw [hs', hbinding]
  have hallows : s'.allows (.cublasGemmEx handle shape) = true := by
    simp [allows, hbound, hlive hhandle, hlive hstream]
  refine (spec_check (t := s'.put (.cublas shape) (some stream)) (f := s'.spoil) hallows ?_).mono ?_
    fun e s'' h ↦ h
  · intro n r
    rw [← hbound]
    rfl
  · intro b s'' h
    cases b with
    | true => exact h
    | false => exact ⟨_, _, h⟩

def puts (s : Session) (w : Work) (stream n : ℕ) : Session :=
  { s with
    work := List.replicate n (w, some stream) ++ s.work
    pending := List.replicate n (some stream) ++ s.pending }

theorem Launches.attempts {s s' : Session} {stream : ℕ} {w : Work} {launch : Driver Bool}
    (h : s.Launches stream w launch) (n : ℕ) (hlive : s.live ⊆ s'.live)
    (hbinding : s'.binding = s.binding) :
    session.Spec s' (launch.attempts n)
      (fun b s'' ↦ if b then s'' = s'.puts w stream n else ∃ work pending,
        s'' = s'.lost work pending) Aborts := by
  refine Protocol.Spec.attempts (T := fun k s'' ↦ s'' = s'.puts w stream k)
    (F := fun s'' ↦ ∃ work pending, s'' = s'.lost work pending) n rfl ?_
  rintro k s'' rfl
  refine (h (s'.puts w stream k) hlive hbinding).mono ?_ fun e s'' h ↦ h
  intro b s'' hb
  cases b with
  | true => exact hb
  | false =>
    obtain ⟨work, pending, rfl⟩ := hb
    exact ⟨work, pending, rfl⟩

end Launches

section Launcher

/-- From `s` to `s'` what was created is given back, whether every check passes is `ok`, whether
everything is given back without an error is `released`, and the measurements are `timed`. -/
structure Passes (s : Session) (ok released : Bool) (timed : List (Work × ℚ≥0))
    (s' : Session) : Prop where
  live : s'.live = s.live
  region : s'.region = s.region
  profiled : s'.profiled = s.profiled
  clean : s'.clean = (s.clean && ok)
  released : s'.released = (s.released && released)
  timed : s'.timed = timed ++ s.timed

namespace Passes

variable {s s' s'' : Session} {ok ok' released released' : Bool} {timed timed' : List (Work × ℚ≥0)}

theorem refl : s.Passes true true [] s :=
  ⟨rfl, rfl, rfl, (Bool.and_true _).symm, (Bool.and_true _).symm, rfl⟩

theorem trans (h : s.Passes ok released timed s') (h' : s'.Passes ok' released' timed' s'') :
    s.Passes (ok && ok') (released && released') (timed' ++ timed) s'' where
  live := h'.live.trans h.live
  region := h'.region.trans h.region
  profiled := h'.profiled.trans h.profiled
  clean := by rw [h'.clean, h.clean, Bool.and_assoc]
  released := by rw [h'.released, h.released, Bool.and_assoc]
  timed := by rw [h'.timed, h.timed, List.append_assoc]

theorem passed (hlive : s'.live = s.live := by rfl) (hregion : s'.region = s.region := by rfl)
    (hprofiled : s'.profiled = s.profiled := by rfl) (hclean : s'.clean = s.clean := by rfl)
    (hreleased : s'.released = s.released := by rfl)
    (htimed : s'.timed = timed ++ s.timed := by rfl) :
    s.Passes true true timed s' :=
  ⟨hlive, hregion,
    hprofiled, by rw [hclean, Bool.and_true], by rw [hreleased, Bool.and_true], htimed⟩

theorem failed (hlive : s'.live = s.live := by rfl) (hregion : s'.region = s.region := by rfl)
    (hprofiled : s'.profiled = s.profiled := by rfl) (hclean : s'.clean = false := by rfl)
    (hreleased : s'.released = s.released := by rfl) (htimed : s'.timed = s.timed := by rfl) :
    s.Passes false true [] s' :=
  ⟨hlive, hregion,
    hprofiled, by rw [hclean, Bool.and_false], by rw [hreleased, Bool.and_true], htimed⟩

end Passes

variable {s : Session} {w : Work}

def Measures (s : Session) (w : Work) (result : Option ℚ≥0) (s' : Session) : Prop :=
  s.Passes result.isSome true (result.map (w, ·)).toList s' ∧ s'.binding = s.binding

theorem allows_destroyEvent {s : Session} {e : ℕ} {l : List Resource} (h : s.live = .event e :: l) :
    s.allows (.cudaEventDestroy e) = true := by simp [allows, h]

theorem destroyEvents_spec {s' : Session} {start stop : ℕ} {result : Option ℚ≥0}
    (hlive : s'.live = .event stop :: .event start :: s.live) (h : s.Measures w result s'.pop.pop) :
    session.Spec s' (do
      let _ ← Prog.call (.cudaEventDestroy stop)
      let _ ← Prog.call (.cudaEventDestroy start)
      return result) (s.Measures w) Aborts := by
  have hpop : s'.pop.live = .event start :: s.live := by rw [pop, hlive, List.tail_cons]
  refine spec_step (allows_destroyEvent hlive) fun n r ↦ ?_
  refine spec_step (s := s'.pop) (allows_destroyEvent hpop) fun n r ↦ ?_
  exact .ret h

theorem window_puts {s : Session} {start stop stream : ℕ} {work : List (Work × Option ℕ)}
    (h : s.work = List.replicate kWarmupIterations (w, some stream) ++ work) :
    (((s.mark start stream).puts w stream kBenchmarkIterations).mark stop stream).wait.window start
      stop = true := by
  simp [window, wait, mark, puts, h, kBenchmarkIterations, List.replicate_succ]

theorem benchmarkLauncher_spec {stream : ℕ} {launch : Driver Bool}
    (hstream : .stream stream ∈ s.live) (hlaunch : s.Launches stream w launch) :
    session.Spec s (benchmarkLauncher stream kWarmupIterations kBenchmarkIterations launch)
      (s.Measures w) Aborts := by
  have hsync : ∀ n : ℕ, (s.puts w stream n).allows (.cudaStreamSynchronize stream) = true :=
    fun n ↦ decide_eq_true hstream
  unfold benchmarkLauncher
  refine .cond (hlaunch.attempts _ (List.Subset.refl _) rfl) ?_ ?_
  · rintro s₁ rfl
    refine spec_test (hsync _) (fun n r ↦ rfl) ?_ (.ret ⟨.failed, rfl⟩)
    refine spec_answer rfl (fun n r ↦ rfl) (fun start r hok ↦ ?_) fun start r hok ↦ ?_
    · simp only [hok, if_true]
      refine spec_answer rfl (fun n r ↦ rfl) (fun stop r hok ↦ ?_) fun stop r hok ↦ ?_
      · simp only [hok, if_true]
        have hnone {s' : Session} (hlive : s'.live = .event stop :: .event start :: s.live)
            (h : s.Measures w none s'.pop.pop) := destroyEvents_spec hlive h
        refine spec_test (by simp [allows, push, drain, puts, hstream]) (fun n r ↦ rfl) ?_
          (hnone rfl ?_)
        · refine .cond (hlaunch.attempts _ ?_ rfl) ?_ ?_
          · exact fun x hx ↦ List.mem_cons_of_mem _ (List.mem_cons_of_mem _ hx)
          · rintro s₂ rfl
            refine spec_test (by simp [allows, push, mark, drain, puts, hstream]) (fun n r ↦ rfl) ?_
              (hnone rfl ?_)
            · refine spec_test (by simp [allows, push, mark, drain, puts]) (fun n r ↦ rfl) ?_
                (hnone rfl ?_)
              · refine spec_answer ?_ (fun n r ↦ rfl) (fun n r hok ↦ ?_) fun n r hok ↦ ?_
                · simp only [allows, Bool.and_eq_true, decide_eq_true_eq]
                  refine ⟨⟨?_, ?_⟩, window_puts rfl⟩
                  · exact List.mem_cons_of_mem _ List.mem_cons_self
                  · exact List.mem_cons_self
                · simp only [hok, if_true]
                  exact destroyEvents_spec rfl ⟨.passed, rfl⟩
                · simp only [hok, Bool.false_eq_true, if_false]
                  exact hnone rfl ⟨.failed, rfl⟩
              · exact ⟨.failed, rfl⟩
            · exact ⟨.failed, rfl⟩
          · rintro s₂ ⟨work, pending, rfl⟩
            exact hnone rfl ⟨.failed, rfl⟩
        · exact ⟨.failed, rfl⟩
      · simp only [hok, Bool.false_eq_true, if_false]
        refine spec_step (allows_destroyEvent rfl) fun n r ↦ ?_
        exact .ret ⟨.failed, rfl⟩
    · simp only [hok, Bool.false_eq_true, if_false]
      exact .ret ⟨.failed, rfl⟩
  · rintro s₁ ⟨work, pending, rfl⟩
    exact .ret ⟨.failed, rfl⟩

end Launcher

end Session

end Sm120.Gemm
