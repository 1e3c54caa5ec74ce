/-
SidechainVerifier.Schnorr.Batch — checking many Schnorr proofs at once.

Instead of one equation for each proof, the equations are multiplied by
coefficients and added up; the sum is a single multiple of the base and a
single combination of commitments and keys. When the sums differ, each
equation is checked on its own to find the proofs to blame, by one thread
or by several.
-/
import SidechainVerifier.Schnorr.Transcript

namespace SidechainVerifier

open SchnorrGroup

/-- What a backend answers to a batch call. -/
structure BatchAnswer where
  /-- Every proof of the batch is valid. -/
  allValid : Bool
  /-- The positions of proofs known to be invalid. -/
  failed : List Nat
deriving DecidableEq

/-- The answer that blames nothing and vouches for nothing. -/
def BatchAnswer.silent : BatchAnswer := ⟨false, []⟩

/-- How members of a list are searched for. -/
structure Search where
  /-- One thread searches alone, as while low-priority threads are paused. -/
  paused : Bool
  /-- How many times over the list is halved for the threads that are not paused. -/
  depth : Nat
deriving DecidableEq

namespace Search

/-- The search with one thread. -/
def alone : Search := ⟨true, 0⟩

variable {α β : Type}

/-- What is found in the halves of the halves of a list, put together in order. -/
def findInHalves (found? : α → Option β) : Nat → List α → List β
  | 0, items => items.filterMap found?
  | depth + 1, items =>
    let middle := items.length / 2
    findInHalves found? depth (items.take middle) ++ findInHalves found? depth (items.drop middle)

/-- What is found in a list. -/
def find (search : Search) (found? : α → Option β) (items : List α) : List β :=
  if search.paused then items.filterMap found? else findInHalves found? search.depth items

end Search

namespace Transcript

variable {P : Type} [SchnorrGroup P]

/-- The sum of the responses, each multiplied by the coefficient of its position. -/
def responseSum (coefficient : Nat → Multiplier P) (transcripts : List (Transcript P)) :
    Multiplier P :=
  transcripts.zipIdx.foldl (fun sum (t, i) => sum + coefficient i * t.response)
    (Scalar.ofNat order_pos 0)

/-- The multiples of commitments and keys that have to balance the responses. -/
def balance (coefficient : Nat → Multiplier P) (transcripts : List (Transcript P)) :
    List (Multiplier P × P) :=
  transcripts.zipIdx.flatMap fun (t, i) =>
    [(coefficient i, t.commitmentPoint), (coefficient i * t.challengeScalar, t.key)]

/-- The linear combination of all equations holds. -/
def combinedHolds (coefficient : Nat → Multiplier P) (transcripts : List (Transcript P)) : Bool :=
  smul (responseSum coefficient transcripts) base = combination (balance coefficient transcripts)

/-- The transcript of a proof that could be read and whose challenge matches. -/
def candidate? (proof : Except ProvingError (Transcript P)) : Option (Transcript P) :=
  match proof with
  | .ok t => if t.challengeMatches then some t else none
  | .error _ => none

/-- The positions of the proofs that are no candidates, and the candidates with their positions; the
first proof has position `start`. -/
def sortOut : Nat → List (Except ProvingError (Transcript P)) → List Nat × List (Nat × Transcript P)
  | _, [] => ([], [])
  | start, proof :: rest =>
    let (rejected, candidates) := sortOut (start + 1) rest
    match candidate? proof with
    | some t => (rejected, (start, t) :: candidates)
    | none => (start :: rejected, candidates)

/-- The position of a candidate whose equation does not hold. -/
def invalid? : Nat × Transcript P → Option Nat
  | (i, t) => if t.equationHolds then none else some i

/-- The positions of the candidates to blame. That a combination does not hold only says that
something is wrong, so then each equation is checked on its own; so is that of a single candidate,
in place of a combination. -/
def blamed (search : Search) (coefficient : Nat → Multiplier P) :
    List (Nat × Transcript P) → List Nat
  | [] => []
  | [candidate] => (invalid? candidate).toList
  | candidates =>
    if combinedHolds coefficient (candidates.map Prod.snd) then []
    else search.find invalid? candidates

/-- The answer to a batch: the positions of proofs that are no candidates and of candidates to
blame, in order. -/
def batchAnswer (search : Search) (coefficient : Nat → Multiplier P)
    (proofs : List (Except ProvingError (Transcript P))) : BatchAnswer :=
  let (rejected, candidates) := sortOut 0 proofs
  let failed := (rejected ++ blamed search coefficient candidates).mergeSort
  ⟨failed.isEmpty, failed⟩

end Transcript

/-- Checks the proofs of a batch with the given coefficients; if there are proofs to blame, they are
searched for in the given way. -/
def Check.searchBatch (P : Type) [SchnorrGroup P] (search : Search)
    (coefficient : Nat → Multiplier P) (checks : List Check) : BatchAnswer :=
  Transcript.batchAnswer search coefficient (checks.map (Check.transcript P))

/-- Checks the proofs of a batch with the given coefficients, with one thread. -/
def Check.verifyBatch (P : Type) [SchnorrGroup P] (coefficient : Nat → Multiplier P)
    (checks : List Check) : BatchAnswer :=
  searchBatch P .alone coefficient checks

end SidechainVerifier
