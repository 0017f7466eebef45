import DexUnseal.Dex.Machine.Container
import DexUnseal.Proofs.Dex.Machine.Code
import DexUnseal.Proofs.Dex.Machine.Values

/-! Containers and class names on words. -/

namespace DexUnseal.Dex.Machine

variable {image : Image}

lemma advances_tableSection : Advances image tableSection Section.read :=
  advances_u32.bind fun _ => advances_u32.follows.bind fun _ => .pure _

lemma advances_header : Advances image header (Header.read image.val) := by
  have hsection : Follows image tableSection Section.read := advances_tableSection.follows
  have hword : Follows image u32 Reader.u32 := advances_u32.follows
  refine Advances.advancing fun ix hix => ?_
  rw [file_bind]
  refine ((follows_refuseIf _ _).bind_advances fun _ => ?_) ix hix
  refine (advances_block (by decide) (by decide)).bind fun magic => (follows_refuseIf _ _).bind fun _ => ?_
  refine hword.bind fun checksum => (advances_block (by decide) (by decide)).follows.bind fun signature => ?_
  refine hword.bind fun fileSize => hword.bind fun headerSize => hword.bind fun endianTag => ?_
  refine hsection.bind fun link => hword.bind fun mapOffset => hsection.bind fun strings => ?_
  refine hsection.bind fun types => hsection.bind fun protos => hsection.bind fun fields => ?_
  refine hsection.bind fun methods => hsection.bind fun classes => hsection.bind fun data => ?_
  exact (follows_refuseIf _ _).bind fun _ => (follows_refuseIf _ _).bind fun _ => .pure _

lemma advances_typeList : Advances image typeList TypeList.read :=
  (advances_u32.bind fun _ => (advances_u16.map _).repeated _).advancing

lemma advances_string (number : Nat) : Advances image (string number) (Pools.readString image.val number) :=
  advances_u32.bind fun offset => ((advances_text.follows.readAt (offset_lt offset)).within _).follows

lemma advances_typeId (strings : List StringData) : Advances image (typeId strings) (Pools.readType strings) :=
  advances_u32.bind fun _ => (follows_refuseIf _ _).bind fun _ => .pure _

lemma advances_proto : Advances image proto (Proto.read image.val) :=
  advances_u32.bind fun _ => advances_u32.follows.bind fun _ => advances_u32.follows.bind fun offset =>
    (advances_typeList.follows.unlessZero [] offset).follows.bind fun _ => .pure _

lemma advances_fieldId : Advances image fieldId FieldId.read :=
  (advances_u16.bind fun _ => advances_u16.follows.bind fun _ => advances_u32.follows.bind fun _ => .pure _).advancing

lemma advances_methodId : Advances image methodId MethodId.read :=
  (advances_u16.bind fun _ => advances_u16.follows.bind fun _ => advances_u32.follows.bind fun _ => .pure _).advancing

lemma advances_methodHandle : Advances image methodHandle MethodHandle.read :=
  (advances_u16.bind fun _ => advances_u16.follows.bind fun _ => advances_u16.follows.bind fun _ =>
    advances_u16.follows.bind fun _ => .pure _).advancing

lemma advances_callSite : Advances image callSite (Pools.readCallSite image.val) :=
  advances_u32.bind fun offset => (advances_array.follows.readAt (offset_lt offset)).follows

lemma advances_mapEntry : Advances image mapEntry (Pools.readMapEntry image.val) := by
  refine advances_u16.bind fun code => advances_u16.follows.bind fun _ => advances_u32.follows.bind fun count =>
    advances_u32.follows.bind fun offset => ?_
  split
  · exact ((advances_callSite.repeated _).readAt (offset_lt offset)).follows.bind fun _ => .pure _
  · split
    · exact ((advances_methodHandle.repeated _).readAt (offset_lt offset)).follows.bind fun _ => .pure _
    · exact .pure _

lemma advances_map : Advances image map (Pools.readMap image.val) :=
  advances_u32.bind fun _ => (advances_mapEntry.repeated _).bind fun _ => .pure _

lemma yields_entries {item : Nat → Machine α} {item' : Nat → Reader α} (h : ∀ i, Advances image (item i) (item' i))
    (s : Section) :
    Yields image (entries s item) ((Reader.counted item' 0 s.size.toNat).readAt image.val s.offset.toNat) :=
  (follows_loop fun i _ => h i).readAt (offset_lt s.offset)

lemma yields_pools (h : Header) : Yields image (pools h) (Pools.read image.val h) := by
  refine (yields_entries advances_string _).bind fun strings => ?_
  refine (yields_entries (fun _ => advances_typeId strings) _).bind fun types => ?_
  refine (yields_entries (fun _ => advances_proto) _).bind fun protos => ?_
  refine (yields_entries (fun _ => advances_fieldId) _).bind fun fields => ?_
  refine (yields_entries (fun _ => advances_methodId) _).bind fun methods => ?_
  exact (advances_map.follows.unlessZero _ _).bind fun _ => .pure _

lemma follows_members {member : UInt32 → Machine α} {member' : UInt32 → Reader α}
    (h : ∀ index, Follows image (member index) (member' index)) (count : UInt32) :
    Follows image (members member count) (ClassDef.readMembers member' 0 count.toNat) := by
  intro ix hix
  refine agrees_iterations (fun _ last => do
      let difference ← Reader.uleb128
      let index ← (ClassDef.nextIndex last difference : Except Fault UInt32)
      let x ← member' index
      return (x, index))
    (fun _ n last => ClassDef.readMembers member' last n) (fun _ _ => rfl) (fun i n last => ?_) (fun i _ last => ?_)
    hix (Nat.zero_le ix)
  · simp only [ClassDef.readMembers, bind_assoc, pure_bind]
  · refine advances_uleb128.bind fun difference => ?_
    have hindex : Yields image (given (ClassDef.nextIndex last difference)) (ClassDef.nextIndex last difference) := rfl
    exact hindex.follows.bind fun index => (h index).bind fun x => .pure _

lemma follows_field (index : UInt32) : Follows image (field index) (ClassDef.readField index) :=
  advances_uleb128.follows.bind fun _ => .pure _

lemma follows_method (index : UInt32) : Follows image (method index) (ClassDef.readMethod image.val index) :=
  advances_uleb128.follows.bind fun _ => advances_uleb128.follows.bind fun codeOffset =>
    (Yields.optional (fun offset => (advances_code.follows.readAt (offset_lt offset)).within _) codeOffset).follows.bind
      fun _ => .pure _

lemma advances_classData : Advances image classData (ClassDef.readData image.val) := by
  have hcount : Follows image uleb128 Reader.uleb128 := advances_uleb128.follows
  refine advances_uleb128.bind fun _ => hcount.bind fun _ => hcount.bind fun _ => hcount.bind fun _ => ?_
  refine (follows_members follows_field _).bind fun _ => (follows_members follows_field _).bind fun _ => ?_
  exact (follows_members follows_method _).bind fun _ => (follows_members follows_method _).bind fun _ => .pure _

lemma follows_typeDescriptor (pools : Pools) (classIdx : UInt32) :
    Follows image (typeDescriptor pools classIdx) (ClassDef.typeDescriptor pools classIdx) := by
  rw [typeDescriptor, ClassDef.typeDescriptor]
  cases pools.typeDescriptor? classIdx with
  | some descriptor => exact .pure _
  | none => exact (advances_fail _).follows

lemma advances_classDef (pools : Pools) : Advances image (classDef pools) (ClassDef.read image.val pools) := by
  have hword : Follows image u32 Reader.u32 := advances_u32.follows
  apply Advances.advancing
  refine advances_u32.bind fun classIdx => (follows_typeDescriptor pools classIdx).bind fun descriptor => ?_
  refine hword.bind fun flags => hword.bind fun superclassIdx => hword.bind fun interfacesOffset => ?_
  refine hword.bind fun sourceFileIdx => hword.bind fun annotationsOffset => hword.bind fun dataOffset => ?_
  refine hword.bind fun staticValuesOffset => ?_
  refine (advances_typeList.follows.unlessZero [] interfacesOffset).follows.bind fun interfaces => ?_
  refine (advances_directory.follows.unlessZero .empty annotationsOffset).follows.bind fun annotations => ?_
  refine (advances_classData.follows.unlessZero _ dataOffset).follows.bind fun data => ?_
  exact (advances_array.follows.unlessZero [] staticValuesOffset).follows.bind fun staticValues => .pure _

lemma yields_container : Yields image container (Container.decode image.val) := by
  refine (advances_header.follows.readAt (by decide)).bind fun header => (yields_pools header).bind fun pools => ?_
  exact (yields_entries (fun number => (advances_classDef pools).within (.classDef number)) _).bind fun _ => .pure _

lemma yields_refuseIf {condition : Prop} [Decidable condition] {cause : Cause} {f : Unit → Machine α}
    {g : Unit → Except Fault α} (h : Yields image (f ()) (g ())) :
    Yields image (refuseIf condition cause >>= f) (if condition then throw (.ofCause cause) >>= g else g ()) := by
  rw [refuseIf]
  split
  · rfl
  · exact h

lemma definition_lt (h : Header) {number : Nat} (hn : number < 2 ^ 32) :
    h.classes.offset.toNat + number * Scan.classDefSize < 2 ^ 63 := by
  have hclasses := h.classes.offset.toNat_lt
  simp only [Scan.classDefSize]
  omega

lemma yields_className (h : Header) {number : Nat} (hn : number < 2 ^ 32) :
    Yields image (className h number) (Scan.className image.val h number) := by
  have hword {offset : Nat} (ho : offset < 2 ^ 63) :
      Yields image (readAt offset u32) (Reader.u32.readAt image.val offset) := advances_u32.follows.readAt ho
  have hdefinition := definition_lt h hn
  have htypes := h.types.offset.toNat_lt
  have hstrings := h.strings.offset.toNat_lt
  rw [className, mul_eq (by omega), pure_bind, add_eq (by omega), pure_bind]
  refine (hword hdefinition).bind fun classIdx => yields_refuseIf ?_
  have hclass := classIdx.toNat_lt
  rw [mul_eq (by omega), pure_bind, add_eq (by omega), pure_bind]
  refine (hword (by omega)).bind fun stringIdx => yields_refuseIf ?_
  have hstring := stringIdx.toNat_lt
  rw [mul_eq (by omega), pure_bind, add_eq (by omega), pure_bind]
  refine (hword (by omega)).bind fun offset => ?_
  refine (advances_text.follows.readAt (offset_lt offset)).bind fun descriptor => ?_
  cases descriptor.text?.bind ClassName.ofDescriptor? with
  | some name => exact .pure _
  | none => exact .fail _

lemma lt_of_className_ok {h : Header} {number : Nat} {name : String} (hn : number < 2 ^ 32)
    (hname : Scan.className image.val h number = .ok name) : number < image.val.length := by
  obtain ⟨classIdx, hdef, -⟩ := except_bind_ok.mp hname
  obtain ⟨c, hc⟩ := Reader.readAt_ok.mp hdef
  have hword : Advances image u32 Reader.u32 := advances_u32
  have ha := hword _ (definition_lt h hn)
  rw [hc] at ha
  -- The definition ends inside the file, behind those of the classes before it.
  obtain ⟨ix', hlt, hle⟩ := ha.moved
  simp only [Scan.classDefSize] at hlt
  omega

lemma yields_classNamesFrom (h : Header) {done left : Nat} (hl : done + left ≤ 2 ^ 32) :
    Yields image (classNamesFrom h done left) (Scan.classNamesFrom image.val h done left) := by
  induction left generalizing done with
  | zero => exact .pure []
  | succ left ih =>
    refine (yields_className h (by omega)).bind_ok fun name hname => ?_
    have hnames : Yields image (classNamesFrom h (done + 1) left)
        (Scan.classNamesFrom image.val h (done + 1) left) := ih (by omega)
    have hrest := hnames.bind fun names => Yields.pure (name :: names)
    funext ix
    rw [countIteration_bind (lt_of_className_ok (by omega) hname)]
    exact congrFun hrest ix

lemma yields_classNames : Yields image classNames (Scan.classNames image.val) := by
  refine (advances_header.follows.readAt (by decide)).bind fun header => yields_classNamesFrom header ?_
  have hcount := header.classes.size.toNat_lt
  omega

lemma Yields.run {m : Machine α} {result : Except Fault α} (h : Yields image m result) :
    run m image = result.mapError Halt.fault := by
  rw [Machine.run, h]
  cases result <;> rfl

/-- Whatever a file holds, both readers of it end as the ones on cursors do, in a value or in a fault; and no
loop goes through that is to have more iterations than there are bytes. -/
theorem decoding_meets_no_hazard (image : Image) :
    run container image = (Container.decode image.val).mapError Halt.fault ∧
      run classNames image = (Scan.classNames image.val).mapError Halt.fault ∧
      ∀ (α σ : Type) (step : Nat → σ → Machine (α × σ)) (s : σ) (count ix : Nat), image.val.length < count →
        ∃ halted, iterations step 0 count s image ix = .error halted := by
  refine ⟨yields_container.run, yields_classNames.run, fun α σ step s count ix hcount => ?_⟩
  cases hloop : iterations step 0 count s image ix with
  | error halted => exact ⟨halted, rfl⟩
  | ok result =>
    obtain ⟨hstep, hstop⟩ := iterations_ok hloop
    omega

end DexUnseal.Dex.Machine
