import DexUnseal.Dex.Container
import DexUnseal.Proofs.Dex.ClassDef
import DexUnseal.Proofs.Dex.Header

/-! The containers that the file form can hold. Decoding gives no others. -/

namespace DexUnseal.Dex.Container

open Reader

structure WellFormed (c : Container) : Prop where
  magic : c.magic.val.take 4 = Header.magicStart
  pools : c.pools.WellFormed
  classes : ∀ d ∈ c.classes, d.WellFormed c.pools

def Ordered (c : Container) : Prop := ∀ d ∈ c.classes, d.Ordered

def Sorted (c : Container) : Prop := ∀ d ∈ c.classes, d.Sorted

lemma Ordered.sorted {c : Container} (h : c.Ordered) : c.Sorted := fun d hd => (h d hd).sorted

variable {file : Bytes} {c : Container}

lemma size_le_of_decode (h : decode file = .ok c) : Header.size ≤ file.length := by
  obtain ⟨header, hh, -⟩ := except_bind_ok.mp h
  exact (Header.gives_size file).readAt hh

theorem decode_wellFormed (h : decode file = .ok c) : c.WellFormed ∧ c.Sorted := by
  obtain ⟨header, hh, h⟩ := except_bind_ok.mp h
  obtain ⟨pools, hp, h⟩ := except_bind_ok.mp h
  obtain ⟨classes, hc, h⟩ := except_bind_ok.mp h
  obtain rfl := Except.ok.inj h
  have hd (number : Nat) : Gives (within (.classDef number) (ClassDef.read file pools)) fun d =>
      d.WellFormed pools ∧ d.Sorted :=
    (ClassDef.gives_wellFormed file pools).within _
  have hall := ((Gives.counted hd 0 _).readAt hc).2
  exact ⟨⟨(Header.gives_magic file).readAt hh, Pools.read_wellFormed hp, fun d hd => (hall d hd).1⟩,
    fun d hd => (hall d hd).2⟩

end DexUnseal.Dex.Container
