import DexUnseal.Dex.Machine.Code
import DexUnseal.Proofs.Dex.Machine.Words

/-! Method bodies on words. What is stepped over is inside the file and behind where it starts, so it can be
sliced out of the file. -/

namespace DexUnseal.Dex.Machine

variable {image : Image} {ix : Nat}

lemma Agrees.captured {P Q : Nat → Prop} {skip : Machine Unit} {skip' : Reader Unit} {f : Nat → Machine β}
    {g : Bytes → Reader β} (h : Agrees image P (skip image ix) (skip' (.ofOffset image.val ix)))
    (hf : ∀ stop, P stop →
      Agrees image Q (f stop image stop) (g ((image.val.take stop).drop ix) (.ofOffset image.val stop))) :
    Agrees image Q ((skip >>= fun _ => position >>= f) image ix)
      ((captured skip' >>= g) (.ofOffset image.val ix)) := by
  simp only [Dex.captured, bind_assoc, pure_bind]
  rw [Reader.cursor_bind]
  refine h.bind fun _ stop hm _ => ?_
  rw [position_bind, Reader.cursor_bind]
  have hstop := hf stop hm
  rwa [List.drop_take] at hstop

lemma follows_skipOperands (opcode : UInt8) :
    Follows image (skipOperands opcode) (DebugInfo.skipOperands opcode) := by
  rw [skipOperands, DebugInfo.skipOperands]
  split
  · exact advances_sleb128.follows.discard
  · exact (advances_uleb128.repeated _).discard

def opcodeReader : Reader Bool := do
  let opcode ← Reader.u8
  if opcode = DebugInfo.endSequence then return true
  else
    DebugInfo.skipOperands opcode
    return false

lemma skipOpcodes_succ (fuel : Nat) :
    DebugInfo.skipOpcodes (fuel + 1) = (do
      let ended ← opcodeReader
      if ended then pure () else DebugInfo.skipOpcodes fuel) := by
  rw [DebugInfo.skipOpcodes, opcodeReader, bind_assoc]
  congr 1
  funext opcode
  split
  · rfl
  · rw [bind_assoc]
    rfl

lemma advances_skipOpcode : Advances image skipOpcode opcodeReader := by
  refine advances_u8.bind fun opcode => ?_
  split
  · exact .pure true
  · exact (follows_skipOperands opcode).bind fun _ => .pure false

lemma agrees_skipOpcodes {left fuel : Nat} (hix : ix < 2 ^ 63) (hleft : image.val.length ≤ ix + left)
    (hfuel : image.val.length ≤ ix + fuel) :
    Agrees image (Onward image ix) (loopUntil skipOpcode left image ix)
      (DebugInfo.skipOpcodes (fuel + 1) (.ofOffset image.val ix)) := by
  have hstep : Advances image (advancing skipOpcode) opcodeReader := advances_skipOpcode.advancing
  -- Both bounds on the bytes that are left hold again after an opcode, which takes one of them at least.
  induction left generalizing fuel ix with
  | zero =>
    rw [skipOpcodes_succ]
    refine (hstep ix hix).bind fun ended ix' ⟨hlt, hle⟩ _ => ?_
    omega
  | succ left ih =>
    rw [skipOpcodes_succ]
    refine (hstep ix hix).bind fun ended ix' ⟨hlt, hle⟩ _ => ?_
    have hmoved : Onward image ix ix' := .inr ⟨hlt, hle⟩
    cases ended with
    | true => exact .ok hmoved
    | false =>
      obtain ⟨fuel, rfl⟩ : ∃ n, fuel = n + 1 := ⟨fuel - 1, by omega⟩
      exact (ih (hmoved.bounded hix) (by omega) (by omega)).mono fun _ => hmoved.trans

lemma advances_skipDebugInfo : Advances image skipDebugInfo DebugInfo.skip := by
  refine (advances_uleb128.discard.bind fun _ => advances_uleb128.follows.bind fun count =>
    (advances_uleb128.repeated _).discard.bind fun _ => ?_).advancing
  intro ix hix
  rw [file_bind, DebugInfo.skipSequence, Reader.cursor_bind]
  refine agrees_skipOpcodes hix (Nat.le_add_left _ _) ?_
  simp only [Cursor.ofOffset, List.length_drop]
  omega

lemma yields_debugInfo (offset : UInt32) : Yields image (debugInfo offset)
    (inContext (.debugInfo offset.toNat) ((Dex.captured DebugInfo.skip).readAt image.val offset.toNat)) := by
  have hbytes : Agrees image (Forward image offset.toNat)
      ((skipDebugInfo >>= fun _ => position >>= fun stop => file >>= fun bytes => slice bytes offset.toNat stop)
        image offset.toNat) (Dex.captured DebugInfo.skip (.ofOffset image.val offset.toNat)) := by
    rw [← bind_pure (Dex.captured DebugInfo.skip)]
    refine (advances_skipDebugInfo offset.toNat (offset_lt offset)).captured fun stop hm => ?_
    rw [file_bind, slice_eq (Nat.le_of_lt hm.1) hm.2]
    exact .ok hm
  exact hbytes.readAt.within _

lemma advances_skipHandler : Advances image skipHandler Handlers.skipHandler := by
  have hpair : Advances image (do discard uleb128; discard uleb128)
      (do discard Reader.uleb128; discard Reader.uleb128) :=
    advances_uleb128.discard.bind fun _ => advances_uleb128.follows.discard
  refine (advances_sleb128.bind fun size => (hpair.repeated _).discard.bind fun _ => ?_).advancing
  split
  · exact advances_uleb128.follows.discard
  · exact .pure ()

lemma advances_skipHandlers (codeStart : Nat) : Advances image (skipHandlers codeStart) (Handlers.skip codeStart) := by
  refine advances_uleb128.bind fun count => Follows.discard (follows_loop fun i hi => ?_)
  refine Advances.position fun start => ?_
  have hcount := count.toNat_lt
  rw [add_eq (by omega), pure_bind]
  exact advances_skipHandler.within _

lemma advances_guardedBlock : Advances image guardedBlock Try.read :=
  (advances_u32.bind fun _ => advances_u16.follows.bind fun _ => advances_u16.follows.bind fun _ => .pure _).advancing

lemma advances_instructions (codeStart : Nat) :
    Advances image (instructions codeStart) (Code.readInstructions codeStart) := by
  refine advances_u32.bind fun size ix hix => ?_
  have hsize := size.toNat_lt
  have hcondition : image.val.length - ix < min (size.toNat * 2) (2 ^ 64 - 1) ↔
      (Cursor.ofOffset image.val ix).rest.length < size.toNat * 2 := by
    simp only [Cursor.ofOffset, List.length_drop]
    omega
  rw [file_bind, position_bind, Reader.cursor_bind]
  simp only [refuseIf, Reader.refuseIf, hcondition]
  exact (follows_refuseIf _ _).bind (fun _ => advances_u16.repeated _) ix hix

lemma follows_padding : Follows image padding (discard Reader.u16) := by
  intro ix hix
  have hpadding : discard Reader.u16 = Reader.u16 >>= fun _ => pure () := by
    rw [bind_pure_comp]
    rfl
  rw [padding, hpadding]
  refine ((agrees_number .u2 (by decide) (by decide) hix).map UInt16.ofNat).bind fun value ix' ⟨hstop, hle⟩ _ => ?_
  have hmoved : Onward image ix ix' := .inr ⟨by omega, hle⟩
  split
  · exact .ok hmoved
  · -- The warning names the place that the padding starts at.
    rw [position_bind, sub_eq (by omega), pure_bind]
    exact .ok hmoved

lemma follows_guards (codeStart count : Nat) :
    Follows image (guards codeStart count) (Code.readGuards codeStart count) := by
  rw [guards, Code.readGuards]
  refine (advances_guardedBlock.repeated count).bind fun tries ix hix => ?_
  rw [position_bind]
  refine Agrees.captured (advances_skipHandlers codeStart ix hix) fun stop hm => ?_
  obtain ⟨hlt, hle⟩ := hm
  have hlength : ((image.val.take stop).drop ix).length = stop - ix := by
    rw [List.length_drop, List.length_take]
    omega
  rw [sub_eq (Nat.le_of_lt hlt), pure_bind, hlength]
  cases tries.find? fun t => stop - ix ≤ t.handler.toNat with
  | some t => exact .fault _
  | none =>
    dsimp only
    rw [file_bind, slice_eq (Nat.le_of_lt hlt) hle, pure_bind]
    exact .ok (.inr ⟨hlt, hle⟩)

lemma follows_tries (codeStart : Nat) (count : UInt16) (instructionCount : Nat) :
    Follows image (tries codeStart count instructionCount) (Code.readTries codeStart count instructionCount) := by
  rw [tries, Code.readTries]
  split
  · exact .pure _
  · split
    · exact follows_padding.bind fun _ => follows_guards _ _
    · exact (Follows.pure ()).bind fun _ => follows_guards _ _

lemma advances_code : Advances image code (Code.read image.val) := by
  apply Advances.advancing
  refine Advances.position fun start => ?_
  refine advances_u16.bind fun registers => advances_u16.follows.bind fun ins => advances_u16.follows.bind fun outs =>
    advances_u16.follows.bind fun tryCount => advances_u32.follows.bind fun debugOffset => ?_
  refine (Yields.optional yields_debugInfo debugOffset).follows.bind fun debugInfo => ?_
  refine (advances_instructions start).follows.bind fun instructions => ?_
  exact (follows_tries start tryCount instructions.length).bind fun _ => .pure _

end DexUnseal.Dex.Machine
