import TaskFleet.Logic.ResultEnvelopes

/-!
# The size law of `validate`

From a cap of 16384 bytes on, an accepted result is within the cap, and it is there with
its body exactly if it is within the cap with it. Everything else in the envelope is
bounded: the token, the digits of its numbers, the spelling of its duration. So what was
accepted once is accepted again as it is (`envelope_size`).
-/

namespace TaskFleet.Model

open Py

namespace Loaded

section

variable {p : Process} {payload : List (PyStr × Wire)} {b : Body} {maxBytes : Int} {e : Envelope}

/-- The body without its result, and the size it had with it. -/
def Body.cut (p : Process) (b : Body) : Body :=
  { b with result := .null, truncated := true, originalSizeBytes := some (b.size p.interpreter) }

/-! ## What the payload is good for -/

theorem everywhere_get {q : Wire → Prop} (hq : q .null) (key : String) :
    ∀ {fields : List (PyStr × Wire)}, Wire.EverywhereFields q fields → q (Wire.get fields key)
  | [], _ => hq
  | (k, v) :: fields, h => by
      have hrest := everywhere_get hq key h.2
      rw [Wire.get, List.lookup_cons]
      split
      · exact h.1.self
      · exact hrest

theorem requireInt_lt {it : Interpreter} {reason : RejectReason} {v : Wire} {n : ℕ}
    (hv : v.Spellable) (h : requireInt it reason v = .ok n) : n < 10 ^ maxStrDigits := by
  cases v with
  | int m =>
      have hm : m.natAbs < 10 ^ maxStrDigits := hv
      rw [requireInt] at h
      split at h
      · exact absurd h refuse_not_ok
      · cases h
        exact lt_of_le_of_lt (by omega) hm
  | null | bool _ | float _ | str _ | arr _ | obj _ => exact absurd h refuse_not_ok

/-- Values of Python, of no more digits than it spells, make a body that can be printed. -/
theorem readBody_printable (hnative : (Wire.obj payload).Everywhere Wire.Native)
    (hspell : (Wire.obj payload).Everywhere Wire.Spellable)
    (h : readBody p.interpreter payload = .ok b) : Printable b := by
  have hchecked := readBody_iff.mp h
  obtain ⟨x, hx, hseconds, hnativeOf⟩ := roundDuration_eq_ok hchecked.duration
  refine ⟨requireInt_lt (everywhere_get trivial _ hspell.2) hchecked.attempt,
    requireInt_lt (everywhere_get trivial _ hspell.2) hchecked.epoch, ?_⟩
  rw [hseconds]
  exact native_round3 hx (hnativeOf (everywhere_get trivial _ hnative.2))

/-! ## The cap -/

theorem maxStringSize_lt : maxStringSize < 10 ^ 19 := by
  unfold maxStringSize
  norm_num

/-- A cut body is within every cap from 16384 on. -/
theorem size_cut_le_cap (hb : Printable b) (hsize : b.size p.interpreter ≤ maxStringSize) :
    (b.cut p).size p.interpreter ≤ 16384 := by
  have hle := size_cut_le p hb (k := 19) (by decide) (hsize.trans_lt maxStringSize_lt)
  rw [maxStrDigits_eq] at hle
  exact hle.trans (by decide)

/-- A cut body is as settled as it was. -/
theorem settled_cut (h : Settled p.interpreter b) : Settled p.interpreter (b.cut p) where
  rounded := h.rounded
  elapsed := h.elapsed
  marked hnot := absurd hnot.symm Bool.false_ne_true

theorem depth_cut (b : Body) : (Wire.obj (b.cut p).members).depth = 1 := rfl

/-- What an accepted payload has been through. -/
theorem validate_eq_ok (h : p.validate payload maxBytes = .ok e) :
    ∃ b, readBody p.interpreter payload = .ok b ∧ b.size p.interpreter ≤ maxStringSize ∧
      (Wire.obj b.members).depth ≤ p.dumpsDepth ∧
      (maxBytes < b.size p.interpreter ∧
          e = ⟨b.cut p, (b.cut p).size p.interpreter⟩ ∨
        (b.size p.interpreter : Int) ≤ maxBytes ∧
          e = ⟨b, b.size p.interpreter⟩) := by
  rw [Process.validate] at h
  split at h
  · cases h
  · next b hread =>
      split at h
      · cases h
      · next hsize =>
          split at h
          · cases h
          · next e' hseal =>
              cases h
              rw [Body.seal] at hseal
              split_ifs at hseal with hdepth hcut
              · cases hseal
                exact ⟨b, hread, not_lt.mp hsize, not_lt.mp hdepth, .inl ⟨hcut, rfl⟩⟩
              · cases hseal
                exact ⟨b, hread, not_lt.mp hsize, not_lt.mp hdepth, .inr ⟨not_lt.mp hcut, rfl⟩⟩

theorem sizeBytes_of_eq {c : Body} {n : ℕ} (he : e = ⟨c, n⟩) : e.toBody = c ∧ e.sizeBytes = n := by
  rw [he]
  exact ⟨rfl, rfl⟩

/-- A sealed body that is within the cap. -/
theorem sealed_again {c : Body} (hsettled : Settled p.interpreter c)
    (hsize : c.size p.interpreter ≤ maxStringSize)
    (hdepth : (Wire.obj c.members).depth ≤ p.dumpsDepth)
    (hcap : (c.size p.interpreter : Int) ≤ maxBytes) (he : e = ⟨c, c.size p.interpreter⟩) :
    e.sizeBytes = (String.ofList ((Wire.obj e.members).text cpython .compact)).utf8ByteSize ∧
      (e.sizeBytes : Int) ≤ maxBytes ∧ p.validate e.fields maxBytes = .ok e := by
  have hagain : p.validate (c.members ++ [(pyStr "size_bytes", .int e.sizeBytes)]) maxBytes =
      .ok e := by
    rw [validate_of_size (readBody_members hsettled _) hsize hdepth hcap, he]
  obtain ⟨hbody, hsizeBytes⟩ := sizeBytes_of_eq he
  have hfields : e.fields = c.members ++ [(pyStr "size_bytes", .int e.sizeBytes)] := by
    rw [Envelope.fields, hbody]
  rw [hfields, hsizeBytes, hbody]
  rw [hsizeBytes] at hagain
  exact ⟨size_eq p c, hcap, hagain⟩

/-- **The size law.** The size is that of the envelope, and within the cap; the body is
given up exactly if it would not be, with the mark and the size it had; and a second look
at the envelope changes nothing. -/
theorem envelope_size (hnative : (Wire.obj payload).Everywhere Wire.Native)
    (hspell : (Wire.obj payload).Everywhere Wire.Spellable) (hcap : 16384 ≤ maxBytes)
    (h : p.validate payload maxBytes = .ok e) :
    e.sizeBytes = (String.ofList ((Wire.obj e.members).text cpython .compact)).utf8ByteSize ∧
      (e.sizeBytes : Int) ≤ maxBytes ∧
      (∃ b, readBody p.interpreter payload = .ok b ∧ b.result = Wire.get payload "result" ∧
        (maxBytes < b.size p.interpreter → e.toBody = b.cut p) ∧
        ((b.size p.interpreter : Int) ≤ maxBytes → e.toBody = b)) ∧
      p.validate e.fields maxBytes = .ok e := by
  obtain ⟨b, hread, hsize, hdepth, hor⟩ := validate_eq_ok h
  have hsettled := readBody_settled hread
  have hresult := (readBody_iff.mp hread).result
  rcases hor with ⟨hlt, he⟩ | ⟨hle, he⟩
  · have hsmall := size_cut_le_cap (readBody_printable hnative hspell hread) hsize
    have hwithin : ((b.cut p).size p.interpreter : Int) ≤ maxBytes := by omega
    have hdepth' : (Wire.obj (b.cut p).members).depth ≤ p.dumpsDepth := by
      rw [depth_cut]
      exact (Nat.succ_le_succ (Nat.zero_le _)).trans hdepth
    have hlarge : 16384 ≤ maxStringSize := le_trans (by decide) le_maxStringSize
    obtain ⟨hsizeOf, hcapOf, hagain⟩ :=
      sealed_again (settled_cut hsettled) (hsmall.trans hlarge) hdepth' hwithin he
    have hbody : e.toBody = b.cut p := congrArg Envelope.toBody he
    exact ⟨hsizeOf, hcapOf,
      ⟨b, hread, hresult, fun _ => hbody, fun hle => absurd hlt (not_lt.mpr hle)⟩, hagain⟩
  · obtain ⟨hsizeOf, hcapOf, hagain⟩ := sealed_again hsettled hsize hdepth hle he
    have hbody : e.toBody = b := congrArg Envelope.toBody he
    exact ⟨hsizeOf, hcapOf,
      ⟨b, hread, hresult, fun hlt => absurd hle (not_le.mpr hlt), fun _ => hbody⟩, hagain⟩

end

end Loaded

namespace Loaded

/-- An honest result at the smallest of these caps. -/
theorem envelope_size_honest : ∃ e,
    Demo.process.validate (Demo.loaded (pyStr "t") (.int 1) .null) 16384 = .ok e ∧
      Demo.process.validate e.fields 16384 = .ok e := by
  have hkeys : ((Demo.loaded (pyStr "t") (.int 1) .null).map Prod.fst).Nodup := by decide +kernel
  have hnative : (Wire.obj (Demo.loaded (pyStr "t") (.int 1) .null)).Everywhere Wire.Native :=
    ⟨hkeys, trivial, trivial, trivial, trivial, trivial, trivial, trivial, trivial⟩
  have hspell : (Wire.obj (Demo.loaded (pyStr "t") (.int 1) .null)).Everywhere Wire.Spellable := by
    decide +kernel
  have hvalid :
      (Demo.process.validate (Demo.loaded (pyStr "t") (.int 1) .null) 16384).toBool = true := by
    decide +kernel
  cases hread : Demo.process.validate (Demo.loaded (pyStr "t") (.int 1) .null) 16384 with
  | error r =>
      rw [hread] at hvalid
      cases hvalid
  | ok e => exact ⟨e, rfl, (envelope_size hnative hspell le_rfl hread).2.2.2⟩

end Loaded

end TaskFleet.Model
