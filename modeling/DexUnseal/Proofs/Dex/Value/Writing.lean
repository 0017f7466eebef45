import DexUnseal.Proofs.Dex.Value

/-! Writers put the encodings of values behind a buffer, and from there they are read back. -/

namespace DexUnseal.Dex

open Reader Writer

def Writer.Appends (w : Writer) (bytes : Bytes) : Prop := ∀ buffer, w buffer = (bytes.length, buffer ++ bytes)

namespace Writer

variable {first second : Writer} {bytes more : Bytes}

lemma appends_append (bytes : Bytes) : (append bytes).Appends bytes := fun _ => rfl

lemma Appends.andThen (h : first.Appends bytes) (h' : second.Appends more) :
    (andThen first second).Appends (bytes ++ more) := by
  intro buffer
  simp only [Writer.andThen, bind, StateT.bind, h buffer, h' (buffer ++ bytes), List.length_append, List.append_assoc]
  rfl

end Writer

mutual

lemma Value.appends_write : (v : Value) → v.write.Appends v.encode
  | .array values => (appends_append [0x1c]).andThen ((appends_append _).andThen (Value.appends_writeEach values))
  | .annotated a => (appends_append [0x1d]).andThen a.appends_write
  | .byte _ | .short _ | .char _ | .int _ | .long _ | .float _ | .double _ | .index _ _ | .null | .boolean _ =>
    appends_append _

lemma Value.appends_writeEach : (values : List Value) → (Value.writeEach values).Appends (Value.encodeEach values)
  | [] => appends_append []
  | v :: values => v.appends_write.andThen (Value.appends_writeEach values)

lemma Annotation.appends_write : (a : Annotation) → a.write.Appends a.encode
  | ⟨_, elements⟩ => by
    unfold Annotation.encode
    rw [List.append_assoc]
    exact (appends_append _).andThen ((appends_append _).andThen (Element.appends_writeEach elements))

lemma Element.appends_write : (e : Element) → e.write.Appends e.encode
  | ⟨_, value⟩ => (appends_append _).andThen value.appends_write

lemma Element.appends_writeEach :
    (elements : List Element) → (Element.writeEach elements).Appends (Element.encodeEach elements)
  | [] => appends_append []
  | e :: elements => e.appends_write.andThen (Element.appends_writeEach elements)

end

lemma Value.appends_writeArray (values : List Value) : (writeArray values).Appends (encodeArray values) :=
  (appends_append _).andThen (appends_writeEach values)

/-- What is written behind any buffer is read there, whatever comes after it. -/
def RoundTrips (write : Writer) (read : Reader α) (x : α) : Prop :=
  ∀ buffer, ∃ bytes, write buffer = (bytes.length, buffer ++ bytes) ∧ ∀ suffix,
    read (.ofOffset (buffer ++ bytes ++ suffix) buffer.length) =
      .ok (x, .ofOffset (buffer ++ bytes ++ suffix) (buffer ++ bytes).length)

lemma RoundTrips.intro {write : Writer} {read : Reader α} {x : α} {bytes : Bytes} (hw : write.Appends bytes)
    (hr : Reads read bytes x) : RoundTrips write read x := by
  refine fun buffer => ⟨bytes, hw buffer, fun suffix => ?_⟩
  have hstart : Cursor.ofOffset (buffer ++ bytes ++ suffix) buffer.length = ⟨buffer.length, bytes ++ suffix⟩ := by
    rw [Cursor.ofOffset, List.append_assoc, List.drop_left]
  rw [hstart, hr, Cursor.ofOffset, List.drop_left, List.length_append]

/-- At most so many arrays and annotations around any value in a value, and no list too long to be written. -/
def Value.NestedWithin (levels : Nat) (v : Value) : Prop :=
  ∀ depth x, v.Has depth x → depth ≤ levels ∧ x.size < UInt32.size

namespace Value

variable {v : Value} {levels : Nat}

lemma NestedWithin.reads (h : v.NestedWithin levels) : Reads (readWithin (levels + 1)) v.encode v :=
  reads_of_fits (height_le_of_depth fun depth x hx => (h depth x hx).1) fun depth x hx => (h depth x hx).2

lemma nestedWithin_of_height (hv : v.height ≤ levels + 1) (hlen : v.encode.length < UInt32.size) :
    v.NestedWithin levels := fun depth x hx =>
  ⟨Nat.le_of_lt_succ (Nat.lt_of_lt_of_le hx.depth_lt hv), fits_of_length hlen depth x hx⟩

/-- Values with up to 32 levels around what is in them, and annotations and arrays with up to 31 around what is in
their members, are read as they are written. -/
theorem write_roundTrips :
    (∀ v : Value, v.NestedWithin 32 → RoundTrips v.write read v) ∧
      (∀ a : Annotation, a.elements.length < UInt32.size → (∀ e ∈ a.elements, e.value.NestedWithin 31) →
        RoundTrips a.write Annotation.read a) ∧
      ∀ values : List Value, values.length < UInt32.size → (∀ v ∈ values, v.NestedWithin 31) →
        RoundTrips (writeArray values) readArray values := by
  refine ⟨fun v hv => .intro v.appends_write hv.reads, fun a hlen ha => .intro a.appends_write ?_,
    fun values hlen hv => .intro (appends_writeArray values) ?_⟩
  · exact reads_annotationOf hlen fun e he => (ha e he).reads
  · exact reads_listOf hlen fun v hm => (hv v hm).reads

def nestedSample : Value :=
  .array [.annotated ⟨7, [⟨3, .float 0x7fc00001⟩, ⟨4, .double 0x8000000000000000⟩]⟩, .long (-129), .array []]

def annotatedSample : Annotation := ⟨9, [⟨1, nestedSample⟩]⟩

theorem write_roundTrips_sample :
    nestedSample.NestedWithin 31 ∧ RoundTrips nestedSample.write read nestedSample ∧
      RoundTrips annotatedSample.write Annotation.read annotatedSample ∧
      RoundTrips (writeArray [nestedSample]) readArray [nestedSample] := by
  have h : nestedSample.NestedWithin 31 := nestedWithin_of_height (by decide) (by decide)
  refine ⟨h, write_roundTrips.1 _ fun depth x hx => ?_, write_roundTrips.2.1 _ (by decide) fun e he => ?_,
    write_roundTrips.2.2 _ (by decide) fun v hv => ?_⟩
  · exact ⟨Nat.le_succ_of_le (h depth x hx).1, (h depth x hx).2⟩
  · rwa [List.mem_singleton.mp he]
  · rwa [List.mem_singleton.mp hv]

end Value

end DexUnseal.Dex
