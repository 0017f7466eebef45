import DexUnseal.Dex.Code
import DexUnseal.Proofs.Dex.Results

/-! Method bodies read back as they were written. What is only stepped over has to end where its bytes do. -/

namespace DexUnseal.Dex

open Reader

variable {bytes : Bytes} {pass : Reader Unit}

def Steps (skip : Reader Unit) (bytes : Bytes) : Prop := skip ⟨0, bytes⟩ = .ok ((), ⟨bytes.length, []⟩)

lemma Steps.reads (hc : Confined pass) (h : Steps pass bytes) : Reads pass bytes () := by
  obtain ⟨taken, ht, -, hr⟩ := hc _ _ _ h
  obtain rfl : bytes = taken := by simpa using ht
  exact hr

lemma Steps.of_reads (h : Reads pass bytes ()) : Steps pass bytes := by
  have h₀ := h 0 []
  rwa [List.append_nil, Nat.zero_add] at h₀

lemma reads_captured (h : Reads pass bytes ()) : Reads (captured pass) bytes bytes := by
  intro position rest
  have hs : (pass >>= fun _ => cursor >>= fun stop => pure (Cursor.upTo ⟨position, bytes ++ rest⟩ stop))
      ⟨position, bytes ++ rest⟩ = .ok (Cursor.upTo ⟨position, bytes ++ rest⟩ ⟨position + bytes.length, rest⟩,
        ⟨position + bytes.length, rest⟩) := by
    simp only [Bind.bind, StateT.bind, Except.bind, h position rest]
    rfl
  rw [captured, cursor_bind, hs]
  simp [Cursor.upTo]

lemma steps_upTo {c c' : Cursor} (hc : Confined pass) (h : pass c = .ok ((), c')) :
    Steps pass (c.upTo c') := by
  obtain ⟨bytes, hb, hp, hr⟩ := hc _ _ _ h
  have hu : c.upTo c' = bytes := by simp [Cursor.upTo, hb, hp]
  rw [hu]
  exact Steps.of_reads hr

lemma gives_captured (hc : Confined pass) : Gives (captured pass) (Steps pass) := by
  intro c taken c' h
  rw [captured, cursor_bind] at h
  obtain ⟨⟨⟩, c₁, hs, h⟩ := bind_ok h
  rw [cursor_bind] at h
  obtain ⟨rfl, rfl⟩ := pure_ok h
  exact steps_upTo hc hs

namespace DebugInfo

lemma confined_skipOperands (opcode : UInt8) : Confined (skipOperands opcode) := by
  rw [skipOperands]
  split
  · exact confined_sleb128.discard
  · exact (confined_uleb128.repeated _).discard

lemma confined_skipOpcodes (fuel : Nat) : Confined (skipOpcodes fuel) := by
  induction fuel with
  | zero => exact confined_u8.discard
  | succ fuel ih =>
    refine confined_u8.bind fun opcode => ?_
    split
    · exact Confined.pure ()
    · exact (confined_skipOperands opcode).bind fun _ => ih

/-- Any fuel will do that is no less than the number of bytes to be taken. -/
lemma skipOpcodes_fuel {fuel more : Nat} {c c' : Cursor} (h : skipOpcodes fuel c = .ok ((), c'))
    (hf : c.rest.length ≤ fuel + c'.rest.length) (hm : c.rest.length ≤ more + c'.rest.length) :
    skipOpcodes more c = .ok ((), c') := by
  induction fuel generalizing more c with
  | zero =>
    obtain ⟨opcode, ho, -⟩ := map_ok h
    have hl := congrArg List.length (u8_ok ho).1
    rw [List.length_cons] at hl
    omega
  | succ fuel ih =>
    obtain ⟨opcode, c₁, ho, h⟩ := bind_ok h
    have hl := congrArg List.length (u8_ok ho).1
    rw [List.length_cons] at hl
    have htaken : c'.rest.length ≤ c₁.rest.length := by
      split at h
      · exact (Confined.pure ()).length_le h
      · exact ((confined_skipOperands opcode).bind fun _ => confined_skipOpcodes fuel).length_le h
    cases more with
    | zero => omega
    | succ more =>
      rw [skipOpcodes, bind_eq ho]
      split at h
      · rwa [if_pos ‹_›]
      · rw [if_neg ‹_›]
        obtain ⟨⟨⟩, c₂, hs, h⟩ := bind_ok h
        have hr := (confined_skipOperands opcode).length_le hs
        rw [bind_eq hs]
        exact ih h (by omega) (by omega)

lemma confined_skipSequence : Confined skipSequence := by
  intro c u c' h
  rw [skipSequence, cursor_bind] at h
  obtain ⟨bytes, hb, hp, hr⟩ := confined_skipOpcodes _ _ _ _ h
  refine ⟨bytes, hb, hp, fun position rest => ?_⟩
  rw [skipSequence, cursor_bind]
  refine skipOpcodes_fuel (hr position rest) ?_ ?_
  · simp only [hb, List.length_append]; omega
  · simp only [List.length_append]; omega

lemma confined_skip : Confined skip :=
  confined_uleb128.discard.bind fun _ => confined_uleb128.bind fun _ =>
    (confined_uleb128.repeated _).discard.bind fun _ => confined_skipSequence

end DebugInfo

namespace Handlers

lemma confined_skipHandler : Confined skipHandler := by
  refine confined_sleb128.bind fun size => ?_
  refine ((confined_uleb128.discard.bind fun _ => confined_uleb128.discard).repeated _).discard.bind fun _ => ?_
  split
  · exact confined_uleb128.discard
  · exact Confined.pure ()

/-- The context of a handler is mentioned in faults alone, and so is where the code starts. -/
lemma alike_skip (codeStart : Nat) :
    Alike (skip codeStart) (do discard (repeated skipHandler (← uleb128).toNat)) := by
  refine Alike.rfl.bind fun count => Alike.map _ ?_
  exact Alike.counted (fun i _ => Alike.cursor fun start => Alike.within _ _) _ _ _

lemma confined_skip (codeStart : Nat) : Confined (skip codeStart) :=
  (alike_skip codeStart).confined
    (confined_uleb128.bind fun count => (confined_skipHandler.repeated count.toNat).discard)

lemma reads_skip {bytes : Bytes} (h : Steps (skip start) bytes) (codeStart : Nat) :
    Reads (skip codeStart) bytes () :=
  (alike_skip codeStart).reads.mpr ((alike_skip start).reads.mp (h.reads (confined_skip start)))

end Handlers

namespace Code

/-- Tries that their count can hold and that point into one list of handlers, or neither tries nor handlers. -/
def Guarded (tries : List Try) (handlers : Bytes) : Prop :=
  tries = [] ∧ handlers = [] ∨
    0 < tries.length ∧ tries.length ≤ mostTries ∧ Steps (Handlers.skip 0) handlers ∧
      ∀ t ∈ tries, t.handler.toNat < handlers.length

structure WellFormed (code : Code) : Prop where
  debugInfo : ∀ bytes ∈ code.debugInfo, Steps DebugInfo.skip bytes
  guarded : Guarded code.tries code.handlers

lemma WellFormed.length_tries_le {code : Code} (h : code.WellFormed) : code.tries.length ≤ mostTries := by
  rcases h.guarded with ⟨ht, -⟩ | ⟨-, hm, -⟩
  · simp [ht]
  · exact hm

def checkTries (code : Code) : Except Fault Unit :=
  if mostTries < code.tries.length then throw (.ofCause (.tooManyTries code.tries.length)) else pure ()

lemma checkTries_eq_ok_iff {code : Code} : code.checkTries = .ok () ↔ code.tries.length ≤ mostTries := by
  simp [checkTries, throw, throwThe, MonadExceptOf.throw, pure, Except.pure]

lemma checkTries_eq_error_iff {code : Code} {fault : Fault} : code.checkTries = .error fault ↔
    mostTries < code.tries.length ∧ fault = ⟨.tooManyTries code.tries.length, []⟩ := by
  rw [checkTries]
  split <;> simp [*, throw, throwThe, MonadExceptOf.throw, pure, Except.pure, Fault.ofCause, eq_comm]

lemma reads_try (t : Try) : Reads Try.read t.encode t := by
  obtain ⟨start, count, handler⟩ := t
  simp only [Try.encode, List.append_assoc]
  exact (reads_u32 start).bind ((reads_u16 count).bind ((reads_u16 handler).then (Reads.pure _)))

lemma reads_instructions {instructions : List UInt16} (codeStart : Nat) (h : instructions.length < UInt32.size) :
    Reads (readInstructions codeStart)
      (Bytes.word32 (UInt32.ofNat instructions.length) ++ instructions.flatMap Bytes.word16) instructions := by
  have hn := UInt32.toNat_ofNat_of_lt' h
  have hl : (instructions.flatMap Bytes.word16).length = instructions.length * 2 := by
    simp [List.length_flatMap]
  refine (reads_u32 _).bind (Reads.cursor fun c hc => ?_)
  have hle := hc.length_le
  rw [hn]
  exact Reads.skip (Reads.refuseIf (by omega) _) (reads_repeated_flatMap Bytes.word16 fun unit _ => reads_u16 unit)

lemma reads_guards {tries : List Try} {handlers : Bytes} (hs : Steps (Handlers.skip 0) handlers)
    (hi : ∀ t ∈ tries, t.handler.toNat < handlers.length) (codeStart : Nat) :
    Reads (readGuards codeStart tries.length) (tries.flatMap Try.encode ++ handlers) (tries, handlers) := by
  have hf : tries.find? (fun t => handlers.length ≤ t.handler.toNat) = none :=
    List.find?_eq_none.mpr fun t ht => by simpa using hi t ht
  refine (reads_repeated_flatMap Try.encode fun t _ => reads_try t).bind ?_
  apply (reads_captured (Handlers.reads_skip hs codeStart)).then
  rw [hf]
  exact Reads.pure _

lemma reads_tries {code : Code} (h : code.WellFormed) (codeStart : Nat) :
    Reads (readTries codeStart (UInt16.ofNat code.tries.length) code.instructions.length) code.encodeTries
      (code.tries, code.handlers) := by
  rcases h.guarded with ⟨ht, hh⟩ | ⟨hp, hm, hs, hi⟩
  · rw [encodeTries, ht, hh]
    exact Reads.pure _
  · have hn := UInt16.toNat_ofNat_of_lt' (Nat.lt_of_le_of_lt hm (by decide))
    have hz : UInt16.ofNat code.tries.length ≠ 0 := fun he => by simp [he] at hn; omega
    have he : code.tries.isEmpty = false := by
      rw [List.isEmpty_eq_false_iff, ← List.length_pos_iff]
      exact hp
    rw [readTries, if_neg hz, hn, encodeTries, he]
    simp only [Bool.false_eq_true, if_false, List.append_assoc]
    split
    · exact (reads_u16 0).discard.bind (reads_guards hs hi codeStart)
    · exact reads_guards hs hi codeStart

theorem reads_encode_of_lt {file : Bytes} {code : Code} {debugOffset : UInt32} (h : code.WellFormed)
    (hd : readDebugInfo file debugOffset = .ok code.debugInfo)
    (hi : code.instructions.length < UInt32.size) : Reads (read file) (code.encode debugOffset) code := by
  simp only [encode, List.append_assoc]
  refine Reads.cursor fun start _ => ?_
  refine (reads_u16 code.registers).bind ((reads_u16 code.ins).bind ((reads_u16 code.outs).bind ?_))
  refine (reads_u16 _).bind ((reads_u32 debugOffset).bind (Reads.skip (Reads.lift hd) ?_))
  rw [← List.append_assoc]
  exact (reads_instructions start.position hi).bind ((reads_tries h start.position).then (Reads.pure _))

theorem reads_encode {file : Bytes} {code : Code} {debugOffset : UInt32} (h : code.WellFormed)
    (hd : readDebugInfo file debugOffset = .ok code.debugInfo)
    (hlen : (code.encode debugOffset).length < UInt32.size) : Reads (read file) (code.encode debugOffset) code := by
  refine reads_encode_of_lt h hd ?_
  simp [encode, List.length_flatMap] at hlen
  omega

lemma readDebugInfo_ok {file : Bytes} {offset : UInt32} {debugInfo : Option Bytes}
    (h : readDebugInfo file offset = .ok debugInfo) : ∀ bytes ∈ debugInfo, Steps DebugInfo.skip bytes := by
  intro bytes hb
  obtain ⟨o, ho⟩ := optional_ok h bytes hb
  exact (gives_captured DebugInfo.confined_skip).readAt (inContext_ok.mp ho)

lemma gives_guards (codeStart count : Nat) : Gives (readGuards codeStart count) fun result =>
    result.1.length = count ∧ Steps (Handlers.skip 0) result.2 ∧ ∀ t ∈ result.1, t.handler.toNat < result.2.length := by
  refine ((Gives.trivial Try.read).repeated count).bind fun tries ht => ?_
  refine (gives_captured (Handlers.confined_skip codeStart)).bind fun handlers hh => ?_
  split
  · exact Gives.fail _
  · rename_i hf
    have hs := Steps.of_reads (Handlers.reads_skip hh 0)
    exact Gives.pure ⟨ht.1, hs, fun t hm => by simpa using List.find?_eq_none.mp hf t hm⟩

lemma gives_tries (codeStart : Nat) (count : UInt16) (instructionCount : Nat) :
    Gives (readTries codeStart count instructionCount) fun result => Guarded result.1 result.2 := by
  rw [readTries]
  by_cases hz : count = 0
  · rw [if_pos hz]
    exact Gives.pure (.inl ⟨rfl, rfl⟩)
  · have hp : 0 < count.toNat := Nat.pos_of_ne_zero fun h => hz (UInt16.toNat_inj.mp h)
    have hm : count.toNat ≤ mostTries := Nat.le_of_lt_succ count.toNat_lt
    have hguarded : Gives (readGuards codeStart count.toNat) fun result => Guarded result.1 result.2 := by
      refine (gives_guards codeStart count.toNat).mono fun result hr => ?_
      exact .inr ⟨hr.1 ▸ hp, hr.1 ▸ hm, hr.2⟩
    rw [if_neg hz]
    split
    · exact Gives.after fun _ => hguarded
    · exact hguarded

theorem gives_wellFormed (file : Bytes) : Gives (read file) WellFormed := by
  refine Gives.after fun start => Gives.after fun registers => Gives.after fun ins => Gives.after fun outs => ?_
  refine Gives.after fun tryCount => Gives.after fun debugOffset => ?_
  refine (Gives.lift fun _ => readDebugInfo_ok).bind fun debugInfo hd => Gives.after fun instructions => ?_
  exact (gives_tries _ _ _).bind fun result ht => Gives.pure ⟨hd, ht⟩

lemma gives_length_instructions (codeStart : Nat) :
    Gives (readInstructions codeStart) fun instructions => instructions.length < UInt32.size := by
  refine Gives.after fun size => Gives.after fun c => Gives.after fun _ => ?_
  refine ((Gives.trivial u16).repeated size.toNat).mono fun instructions h => ?_
  exact h.1 ▸ size.toNat_lt

lemma gives_length (file : Bytes) : Gives (read file) fun code => code.instructions.length < UInt32.size := by
  refine Gives.after fun start => Gives.after fun registers => Gives.after fun ins => Gives.after fun outs => ?_
  refine Gives.after fun tryCount => Gives.after fun debugOffset => Gives.after fun debugInfo => ?_
  exact (gives_length_instructions _).bind fun instructions h => Gives.after fun guards => Gives.pure h

end Code

end DexUnseal.Dex
