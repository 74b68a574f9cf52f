import ProtoBundle.Failure

/-!
The record of a composition: the files taken up so far, and those whose imports are still being followed, the
outermost first.
-/

namespace ProtoBundle.Composition

structure Cache where
  seen : List String
  inProgress : List String
  deriving DecidableEq, Repr

namespace Cache

def empty : Cache := ⟨[], []⟩

def has (c : Cache) (path : String) : Bool := c.seen.contains path

def isBuilding (c : Cache) (path : String) : Bool := c.inProgress.contains path

def size (c : Cache) : Nat := c.seen.length

def start (c : Cache) (path : String) : Cache where
  seen := c.seen.insert path
  inProgress := c.inProgress ++ [path]

/-- Takes the first occurrence of a path out of those in progress. -/
def finish (c : Cache) (path : String) : Except Failure Cache :=
  if c.isBuilding path then .ok { c with inProgress := c.inProgress.erase path } else .error .notInProgress

theorem mem_seen_start {c : Cache} {path other : String} :
    other ∈ (c.start path).seen ↔ other = path ∨ other ∈ c.seen := by
  simp [start]

theorem seen_subset_start (c : Cache) (path : String) : c.seen ⊆ (c.start path).seen :=
  fun _ hp => mem_seen_start.2 (.inr hp)

theorem mem_inProgress_start {c : Cache} {path other : String} :
    other ∈ (c.start path).inProgress ↔ other ∈ c.inProgress ∨ other = path := by
  simp [start]

theorem seen_of_finish {c d : Cache} {path : String} (h : c.finish path = .ok d) : d.seen = c.seen := by
  unfold finish at h
  split at h
  · simp only [Except.ok.injEq] at h
    subst h
    rfl
  · simp at h

end Cache

end ProtoBundle.Composition
