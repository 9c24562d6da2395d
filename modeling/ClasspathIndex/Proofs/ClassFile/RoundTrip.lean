import ClasspathIndex.Proofs.ClassFile.Methods

/-!
# Class files are read and nothing else is

`ClassFile.read_eq_ok_iff` says what the reader of class files does: it succeeds on the
encodings of well-formed class files, with any bytes after them, and gives their views.  The
two directions are stated as results of their own, for the summary of a byte string.
-/

namespace ClasspathIndex.ClassFile

open Bytes Reader

/-! ### The parts of a class file -/

/-- What is read first are the magic number and a version that is supported. -/
lemma readHeader_eq_ok_iff {u : Unit} {bs rest : Bytes} :
    readHeader bs = .ok (u, rest) ↔
      ∃ minor major : UInt16, (45 ≤ major.toNat ∧ major.toNat ≤ 69) ∧
        bs = bigEndianOf 4 magic.toNat ++
          (bigEndianOf 2 minor.toNat ++ (bigEndianOf 2 major.toNat ++ rest)) := by
  have hrange (major : UInt16) :
      ¬ (major < minMajor ∨ maxMajor < major) ↔ 45 ≤ major.toNat ∧ major.toNat ≤ 69 := by
    have hmin : minMajor.toNat = 45 := rfl
    have hmax : maxMajor.toNat = 69 := rfl
    rw [UInt16.lt_iff_toNat_lt, UInt16.lt_iff_toNat_lt]
    omega
  simp only [readHeader, bind_eq_ok_iff, u4_eq_ok_iff]
  constructor
  · rintro ⟨mark, _, rfl, h⟩
    split at h
    · simp only [bind_eq_ok_iff, fail_eq_ok_iff, false_and, exists_false] at h
    · rename_i hmark
      obtain rfl := not_not.1 hmark
      simp only [bind_eq_ok_iff, u2_eq_ok_iff] at h
      obtain ⟨minor, _, rfl, major, _, rfl, h⟩ := h
      split at h
      · simp only [fail_eq_ok_iff] at h
      · rename_i hmajor
        obtain ⟨-, rfl⟩ := pure_eq_ok_iff.1 h
        exact ⟨minor, major, (hrange major).1 hmajor, rfl⟩
  · rintro ⟨minor, major, hmajor, rfl⟩
    refine ⟨magic, _, rfl, ?_⟩
    rw [if_neg (not_not.2 rfl)]
    simp only [bind_eq_ok_iff, u2_eq_ok_iff]
    refine ⟨minor, _, rfl, major, _, rfl, ?_⟩
    rw [if_neg ((hrange major).2 hmajor)]
    rfl

/-- The number of bytes is no matter for a number of two bytes. -/
lemma readsUpTo_u2 (n : Nat) :
    ReadsUpTo n u2 (fun _ => True) (fun i => bigEndianOf 2 i.toNat) id := by
  refine ⟨fun {bs i rest} _ => ?_⟩
  rw [u2_eq_ok_iff]
  constructor
  · rintro rfl
    exact ⟨i, trivial, rfl, rfl⟩
  · rintro ⟨_, -, rfl, rfl⟩
    rfl

/-- A pool without constants has no names. -/
lemma ConstantPool.not_hasClassName_nil (index : UInt16) :
    ¬ (ofConstants []).HasClassName index := by
  rintro ⟨name, hname, -⟩
  have hnil : (ofConstants []).get? index = none := by
    unfold get? ofConstants
    cases index.toNat <;> simp
  rw [hnil] at hname
  exact absurd hname (by simp)

/-- As soon as there is a constant, the slots are filled if they are counted truly, but for the
last. -/
lemma fills_iff {cf : ClassFile} (h : cf.constants ≠ []) :
    ConstantPool.Fills (cf.poolCount.toNat - 1) cf.constants ↔
      cf.poolCount.toNat = cf.slotCount + 1 ∨ cf.Overhangs := by
  have hpos := ConstantPool.length_slots_pos h
  unfold ConstantPool.Fills Overhangs slotCount
  constructor
  · rintro (hcount | ⟨hcount, c, hc, hwide⟩)
    · exact .inl (by omega)
    · by_cases hzero : cf.poolCount.toNat = 0
      · have := ConstantPool.two_le_length_slots hc hwide
        omega
      · exact .inr ⟨by omega, c, hc, hwide⟩
  · rintro (hcount | ⟨hcount, hlast⟩)
    · exact .inl (by omega)
    · exact .inr ⟨by omega, hlast⟩

/-! ### The whole of a class file -/

/-- What is read is the view of a well-formed class file, from its encoding and from nothing
else. -/
lemma read_eq_ok_iff {s : Summary} {bs rest : Bytes} :
    read bs = .ok (s, rest) ↔
      ∃ cf : ClassFile, cf.WellFormed ∧ cf.view = s ∧ bs = cf.encode ++ rest := by
  have hinterfaces {bs rest : Bytes} {xs : List UInt16} :
      counted u2 bs = .ok (xs, rest) ↔ _ :=
    eq_ok_iff_of_forall fun n => (readsUpTo_u2 n).counted
  have hfields {bs rest : Bytes} {xs : List Member} :
      counted Member.read bs = .ok (xs, rest) ↔ _ :=
    eq_ok_iff_of_forall fun n => (Member.readsUpTo_read n).counted
  have hmethods {pool : ConstantPool} {bs rest : Bytes} {xs : List (Option MethodSummary)} :
      counted (readMethod pool) bs = .ok (xs, rest) ↔ _ :=
    eq_ok_iff_of_forall fun n => (Method.readsUpTo_readMethod pool n).counted
  have hattributes {bs rest : Bytes} {xs : List Attribute} :
      counted Attribute.read bs = .ok (xs, rest) ↔ _ :=
    eq_ok_iff_of_forall fun n => (Attribute.readsUpTo_read n).counted
  simp only [read, bind_eq_ok_iff, readHeader_eq_ok_iff, ConstantPool.read_eq_ok_iff, u2_eq_ok_iff,
    lift_eq_ok_iff, pure_eq_ok_iff, ConstantPool.className_eq_ok_iff, hinterfaces, hfields,
    hmethods, hattributes]
  constructor
  · rintro ⟨_, _, ⟨minor, major, hversion, rfl⟩, _, _, ⟨count, constants, hfill, hconstants, rfl,
      rfl⟩, access, _, rfl, thisClass, _, rfl, superClass, _, rfl, _, _, ⟨interfaces,
      ⟨hinterfaceCount, -⟩, rfl, rfl⟩, _, _, ⟨fields, ⟨hfieldCount, hfields⟩, rfl, rfl⟩, _, _,
      ⟨methods, ⟨hmethodCount, hmethods⟩, rfl, rfl⟩, _, _, ⟨attributes, ⟨hattributeCount,
      hattributes⟩, rfl, rfl⟩, _, _, ⟨⟨hthis, rfl⟩, rfl⟩, rfl, rfl⟩
    -- The class has its name from a constant, so there is one.
    have hne : constants ≠ [] := by
      rintro rfl
      exact ConstantPool.not_hasClassName_nil _ hthis
    let cf : ClassFile := ⟨minor, major, count, constants, access, thisClass, superClass,
      interfaces, fields, methods, attributes⟩
    have hcount : cf.poolCount.toNat = cf.slotCount + 1 ∨ cf.Overhangs := (fills_iff hne).1 hfill
    refine ⟨cf, ⟨hversion, hcount, hconstants, hthis, hinterfaceCount,
      hfieldCount, hfields, hmethodCount, hmethods, hattributeCount, hattributes⟩, ?_, ?_⟩
    · simp [cf, view, pool, List.filterMap_map]
    · simp [cf, encode]
  · rintro ⟨cf, hcf, rfl, rfl⟩
    have hne : cf.constants ≠ [] := by
      intro hnil
      have hthis := hcf.thisClass
      rw [pool, hnil] at hthis
      exact ConstantPool.not_hasClassName_nil _ hthis
    simp only [encode, List.append_assoc]
    refine ⟨(), _, ⟨cf.minor, cf.major, hcf.version, rfl⟩, cf.pool, _, ⟨cf.poolCount, cf.constants,
      (fills_iff hne).2 hcf.poolCount, hcf.constants, rfl, rfl⟩, cf.access, _, rfl, cf.thisClass,
      _, rfl, cf.superClass, _, rfl, _, _, ⟨cf.interfaces, ⟨hcf.interfaceCount, by simp⟩, rfl, rfl⟩,
      _, _, ⟨cf.fields, ⟨hcf.fieldCount, hcf.fields⟩, rfl, rfl⟩, _, _, ⟨cf.methods,
      ⟨hcf.methodCount, hcf.methods⟩, rfl, rfl⟩, _, rest, ⟨cf.attributes, ⟨hcf.attributeCount,
      hcf.attributes⟩, rfl, rfl⟩, _, rest, ⟨⟨hcf.thisClass, rfl⟩, rfl⟩, ?_, rfl⟩
    simp [view, List.filterMap_map]

/-- A summary is what is read, whatever is left behind it. -/
lemma summary_eq_ok_iff {s : Summary} {bs : Bytes} :
    summary bs = .ok s ↔ ∃ rest, read bs = .ok (s, rest) := by
  unfold summary
  cases h : read bs with
  | error e => simp [Except.map]
  | ok p =>
    obtain ⟨x, rest⟩ := p
    simp [Except.map]

/-! ### Summaries -/

/-- A class with the name `a.B` and one method, which takes a number of eight bytes and has an
annotation that holds others.  The number before the texts of the method takes two slots. -/
def sample : ClassFile where
  minor := 0
  major := 52
  poolCount := 10
  constants := [.utf8 (Text.Utf8.encode "a/B"), .classInfo 1, .long 7, .utf8 (Text.Utf8.encode "m"),
    .utf8 (Text.Utf8.encode "(J)V"), .utf8 (Text.Utf8.encode "RuntimeVisibleAnnotations"),
    .utf8 (Text.Utf8.encode "Ljava/lang/Deprecated;"), .utf8 (Text.Utf8.encode "<clinit>")]
  access := 0x21
  thisClass := 2
  superClass := 0
  interfaces := [2]
  fields := [⟨0, 5, 5, [⟨5, [1, 2, 3]⟩]⟩]
  methods :=
    [{ access := 0x81, name := 5, descriptor := 6
       attributes := [.plain ⟨5, [9]⟩, .annotations 7
         [⟨8, [(5, .array [.nested 8 [(5, .constant 'J'.toUInt8 3)], .enumConstant 8 5])]⟩] [0]]
       signature := ⟨[⟨0, .primitive .long⟩], none⟩ },
     { access := 8, name := 9, descriptor := 5, attributes := [], signature := ⟨[], none⟩ }]
  attributes := [⟨5, []⟩]

/-- The sample is a well-formed class file. -/
lemma wellFormed_sample : sample.WellFormed where
  version := by decide
  poolCount := .inl (by decide)
  constants := by
    simp only [sample, List.forall_mem_cons, Constant.Fits]
    refine ⟨?_, trivial, trivial, ?_, ?_, ?_, ?_, ?_, by simp⟩ <;> decide +kernel
  thisClass := ⟨1, rfl, _, rfl⟩
  interfaceCount := by decide
  fieldCount := by decide
  fields := by simp [sample, Member.Fits, Attribute.Fits]
  methodCount := by decide
  methods := by
    have hannotation : AnnotationEntry.WellFormed sample.pool ⟨8, [(5, .array [.nested 8 [(5,
        .constant 'J'.toUInt8 3)], .enumConstant 8 5])]⟩ := by
      refine ⟨⟨_, rfl⟩, by decide, ?_⟩
      simp only [List.forall_mem_singleton, ElementValue.Fits, ElementValue.ValuesFit,
        ElementValue.ElementsFit]
      decide
    have hmethod : Method.WellFormed sample.pool sample.methods[0] := by
      refine ⟨⟨_, rfl⟩, ⟨_, rfl⟩, by decide, ?_, fun _ => by decide +kernel⟩
      simp only [sample, List.getElem_cons_zero, List.forall_mem_cons]
      refine ⟨⟨⟨_, rfl⟩, ?_, by decide +kernel⟩, ⟨⟨_, rfl⟩, ?_, ?_, ?_, ?_⟩, by simp⟩
      · unfold Attribute.Fits
        decide
      · unfold Attribute.Fits
        decide
      · decide +kernel
      · decide
      · intro a ha
        obtain rfl := List.mem_singleton.1 ha
        exact hannotation
    have hstatic : Method.WellFormed sample.pool sample.methods[1] :=
      ⟨⟨_, rfl⟩, ⟨_, rfl⟩, by decide, by simp [sample], fun h => absurd (by decide +kernel) h⟩
    intro m hm
    rcases List.mem_pair.1 hm with rfl | rfl
    · exact hmethod
    · exact hstatic
  attributeCount := by decide
  attributes := by simp [sample, Attribute.Fits]

/-- The summary of a well-formed class file is its view, whatever follows it. -/
theorem summary_encode_append {cf : ClassFile} (h : cf.WellFormed) (t : Bytes) :
    summary (cf.encode ++ t) = .ok cf.view :=
  summary_eq_ok_iff.2 ⟨t, read_eq_ok_iff.2 ⟨cf, h, rfl, rfl⟩⟩

/-- The sample with two bytes behind it. -/
theorem summary_encode_sample :
    sample.WellFormed ∧ summary (sample.encode ++ [1, 2]) = .ok sample.view ∧
      sample.view = ⟨"a.B", [⟨"m", [⟨.primitive .long, 0⟩], true, true⟩]⟩ :=
  ⟨wellFormed_sample, summary_encode_append wellFormed_sample [1, 2], by decide +kernel⟩

/-- Whatever has a summary starts with a well-formed class file, and the summary is its view. -/
theorem exists_wellFormed_of_summary_eq_ok {bs : Bytes} {s : Summary} (h : summary bs = .ok s) :
    ∃ (cf : ClassFile) (t : Bytes), cf.WellFormed ∧ bs = cf.encode ++ t ∧ s = cf.view := by
  obtain ⟨t, hread⟩ := summary_eq_ok_iff.1 h
  obtain ⟨cf, hcf, hview, hbs⟩ := read_eq_ok_iff.1 hread
  exact ⟨cf, t, hcf, hbs, hview.symm⟩

/-- The class file at the start of these bytes, from which the summary comes. -/
theorem exists_wellFormed_of_summary_sample :
    ∃ (cf : ClassFile) (t : Bytes), cf.WellFormed ∧ sample.encode ++ [1, 2] = cf.encode ++ t ∧
      ⟨"a.B", [⟨"m", [⟨.primitive .long, 0⟩], true, true⟩]⟩ = cf.view :=
  exists_wellFormed_of_summary_eq_ok (by decide +kernel)

end ClasspathIndex.ClassFile
