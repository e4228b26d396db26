import TaskFleet.Model.Executors

/-!
# Chunking does not show in a result

The loops of `run_count_to_n` and `run_hash_rounds` are cut into chunks so that the
cancel event is looked at now and then and the progress can be seen. Of that nothing is
left in what they return: it is the plain iteration's value, for any chunk size. A task
that is run again gives the same answer again.
-/

namespace TaskFleet.Model

open Py

/-- An executor of `rounds` rounds in chunks of `chunk` is the plain computation of
`value`. -/
structure ChunkedAs (run : ℕ → (ℕ → Bool) → Execution) (chunk rounds : ℕ) (value : Wire) :
    Prop where
  /-- With the event never seen set it terminates, returns the value, and reports its
  progress up to 1. -/
  returns : ∀ cancel : ℕ → Bool, (∀ i, i * chunk < rounds → cancel i = false) →
    ∃ reported enough, (∀ fuel ≥ enough, run fuel cancel =
        .ok (some ⟨.returned value, reported, rounds⟩)) ∧
      reported.Pairwise (· < ·) ∧ (∀ r ∈ reported, 0 < r ∧ r ≤ 1) ∧ reported.getLast? = some 1
  /-- Seen set first with `k` chunks done, it terminates there and returns nothing. -/
  cancelled : ∀ (cancel : ℕ → Bool) k, k * chunk < rounds → cancel k = true →
    (∀ j < k, cancel j = false) →
    ∃ reported enough, (∀ fuel ≥ enough, run fuel cancel =
        .ok (some ⟨.cancelled, reported, k * chunk⟩)) ∧
      reported.length = k ∧ reported.Pairwise (· < ·) ∧ ∀ r ∈ reported, 0 < r ∧ r ≤ 1

/-- Both executors are a chunked loop and a reading of its result. -/
theorem chunkedAs_loop {α : Type} {run : ℕ → (ℕ → Bool) → Execution} (body : α → α)
    {chunk rounds : ℕ} (x : α) (read : α → Wire) (hchunk : 1 ≤ chunk) (hrounds : 1 ≤ rounds)
    (hrun : ∀ fuel cancel, run fuel cancel =
      .ok ((Chunks.loop body chunk rounds cancel fuel 0 0 x).map (Chunks.Outcome.map read))) :
    ChunkedAs run chunk rounds (read (body^[rounds] x)) := by
  constructor
  · intro cancel hdown
    obtain ⟨n, hend, hopen, hloop⟩ := Chunks.loop_returns body hchunk x hdown
    refine ⟨Chunks.reports chunk rounds n, n + 1, fun fuel hfuel => ?_,
      Chunks.reports_increasing hchunk hopen, Chunks.reports_mem hchunk hrounds,
      Chunks.reports_last hrounds hend⟩
    rw [hrun, hloop fuel hfuel]
    rfl
  · intro cancel k hopen hup hdown
    have hbefore : ∀ j < k, Chunks.doneAt chunk rounds j < rounds := by
      intro j hj
      have hle : j * chunk ≤ k * chunk := Nat.mul_le_mul_right chunk hj.le
      exact (min_le_left _ _).trans_lt (hle.trans_lt hopen)
    refine ⟨Chunks.reports chunk rounds k, k + 1, fun fuel hfuel => ?_,
      by simp [Chunks.reports], Chunks.reports_increasing hchunk hbefore,
      Chunks.reports_mem hchunk hrounds⟩
    rw [hrun, Chunks.loop_cancelled x hopen hup hdown hfuel]
    rfl

/-- **Chunking does not change a result.** For every number of rounds, every chunk size
and every hash function. -/
theorem chunking_keeps_results (hash : HashAlgorithm → List UInt8 → List UInt8)
    {chunk n : ℕ} (hchunk : 1 ≤ chunk) (hn : 1 ≤ n) (parameters : List (PyStr × Wire)) :
    (Wire.get parameters "n" = .int n →
      ChunkedAs (fun fuel => Executors.runCountToN chunk fuel parameters) chunk n
        (.int ((· + 1)^[n] 0 : ℕ)) ∧ (· + 1)^[n] 0 = n) ∧
    ∀ algorithm, Wire.get parameters "rounds" = .int n →
      Executors.readAlgorithm parameters = .ok algorithm →
      ChunkedAs (fun fuel => Executors.runHashRounds hash chunk fuel parameters) chunk n
        (.str (Executors.hex ((hash algorithm)^[n] Executors.seed))) := by
  refine ⟨fun hget => ⟨?_, by simp⟩, fun algorithm hget halgorithm => ?_⟩
  · refine chunkedAs_loop (· + 1) 0 (fun (total : ℕ) => .int total) hchunk hn fun fuel cancel => ?_
    rw [Executors.runCountToN, Executors.requireInt_of_get hn hget]
    rfl
  · refine chunkedAs_loop (hash algorithm) Executors.seed
      (fun digest => .str (Executors.hex digest))
      hchunk hn fun fuel cancel => ?_
    rw [Executors.runHashRounds, Executors.requireInt_of_get hn hget, halgorithm]
    rfl

namespace Demo

/-- Parameters that either executor takes. -/
def roundParameters : List (PyStr × Wire) :=
  [(pyStr "n", .int 250000), (pyStr "rounds", .int 250000),
    (pyStr "algorithm", .str (pyStr "sha512"))]

/-- A stand-in for the two hash functions. -/
def reversal : HashAlgorithm → List UInt8 → List UInt8 := fun _ digest => digest.reverse

end Demo

/-- Rounds of a quarter of one shipped chunk, and of two and a half of the other. -/
theorem chunking_keeps_results_shipped :
    (ChunkedAs (fun fuel => Executors.runCountToN Executors.countChunk fuel Demo.roundParameters)
      Executors.countChunk 250000 (.int ((· + 1)^[250000] 0 : ℕ)) ∧ (· + 1)^[250000] 0 = 250000) ∧
    ChunkedAs (fun fuel => Executors.runHashRounds Demo.reversal Executors.hashChunkRounds fuel
      Demo.roundParameters) Executors.hashChunkRounds 250000
      (.str (Executors.hex ((Demo.reversal .sha512)^[250000] Executors.seed))) := by
  have hcount : 1 ≤ Executors.countChunk := by decide
  have hhash : 1 ≤ Executors.hashChunkRounds := by decide
  have hn : 1 ≤ 250000 := by decide
  exact ⟨(chunking_keeps_results Demo.reversal hcount hn Demo.roundParameters).1 rfl,
    (chunking_keeps_results Demo.reversal hhash hn Demo.roundParameters).2 .sha512 rfl rfl⟩

end TaskFleet.Model
