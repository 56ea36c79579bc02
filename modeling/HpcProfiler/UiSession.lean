import HpcProfiler.Correlation

/-!
A profiling session as the user interface loads it. Its events are those of the schema;
the bounds in time, the GPU events and the correlations are looked up with a default.
-/

namespace HpcProfiler.UiSession

open Events Correlation

structure Session where
  cpuEvents : List CpuEvent
  gpuEvents : Option (List GpuEvent)
  correlatedEvents : Option (List CorrelatedEvent)
  startTimeNs : Option ℤ
  endTimeNs : Option ℤ

def isDealloc (e : CpuEvent) : Bool := e.isDealloc.getD false

def Session.allocs (session : Session) : List CpuEvent :=
  session.cpuEvents.filter fun e => !isDealloc e

def Session.deallocs (session : Session) : List CpuEvent :=
  session.cpuEvents.filter isDealloc

def Session.startNs (session : Session) : ℤ := session.startTimeNs.getD 0

def Session.endNs (session : Session) : ℤ := session.endTimeNs.getD 0

/-- A duration of zero counts as one nanosecond. -/
def Session.dur (session : Session) : ℤ :=
  if session.endNs - session.startNs = 0 then 1 else session.endNs - session.startNs

theorem Session.dur_ne_zero (session : Session) : session.dur ≠ 0 := by
  unfold Session.dur
  split
  · decide
  · assumption

end HpcProfiler.UiSession
