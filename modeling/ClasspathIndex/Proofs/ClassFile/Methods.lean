import ClasspathIndex.Proofs.ClassFile.ConstantPool

/-!
# Reading annotations and methods

The values of an annotation are read by recursion on a bound for the number of bytes, which
every nested value lowers by its tag.  With the bound given by the bytes themselves, all
values are read, to any depth.

A method is read attribute by attribute; what its attributes say is looked up in the pool.
-/

namespace ClasspathIndex.ClassFile

open Bytes Reader

namespace ElementValue

/-! ### Values -/

/-- The named values of an annotation are encoded one after the other. -/
lemma encodeElements_eq (elements : List (UInt16 × ElementValue)) :
    encodeElements elements = elements.flatMap encodeNamed := by
  induction elements with
  | nil => rfl
  | cons p elements ih => rw [encodeElements, List.flatMap_cons, ih, encodeNamed]

/-- The values of an array are encoded one after the other. -/
lemma encodeValues_eq (values : List ElementValue) :
    encodeValues values = values.flatMap encode := by
  induction values with
  | nil => rfl
  | cons v values ih => rw [encodeValues, List.flatMap_cons, ih]

/-- Named values fit if each of their values does. -/
lemma elementsFit_iff (elements : List (UInt16 × ElementValue)) :
    ElementsFit elements ↔ ∀ p ∈ elements, p.2.Fits := by
  induction elements with
  | nil => simp [ElementsFit]
  | cons p elements ih => rw [ElementsFit, List.forall_mem_cons, ih]

/-- The values of an array fit if each of them does. -/
lemma valuesFit_iff (values : List ElementValue) :
    ValuesFit values ↔ ∀ v ∈ values, v.Fits := by
  induction values with
  | nil => simp [ValuesFit]
  | cons v values ih => rw [ValuesFit, List.forall_mem_cons, ih]

/-- A nested annotation is its tag, its type and its counted elements. -/
lemma encode_nested (typeIndex : UInt16) (elements : List (UInt16 × ElementValue)) :
    (nested typeIndex elements).encode =
      '@'.toUInt8 :: (bigEndianOf 2 typeIndex.toNat ++ encodeCounted encodeNamed elements) := by
  rw [encode, encodeElements_eq, encodeCounted]

/-- An array is its tag and its counted values. -/
lemma encode_array (values : List ElementValue) :
    (array values).encode = '['.toUInt8 :: encodeCounted encode values := by
  rw [encode, encodeValues_eq, encodeCounted]

/-- A nested annotation fits if its elements do and can be counted in two bytes. -/
lemma fits_nested (typeIndex : UInt16) (elements : List (UInt16 × ElementValue)) :
    (nested typeIndex elements).Fits ↔ elements.length < 2 ^ 16 ∧ ∀ p ∈ elements, p.2.Fits := by
  rw [Fits, elementsFit_iff]

/-- An array fits if its values do and can be counted in two bytes. -/
lemma fits_array (values : List ElementValue) :
    (array values).Fits ↔ values.length < 2 ^ 16 ∧ ∀ v ∈ values, v.Fits := by
  rw [Fits, valuesFit_iff]

/-- A value has at least the byte of its tag. -/
lemma encode_ne_nil (v : ElementValue) : v.encode ≠ [] := by
  cases v <;> simp [encode]

/-- A named value is read from its encoding if its value is. -/
lemma readsUpTo_readNamed {n : Nat} {r : Reader ElementValue}
    (h : ReadsUpTo n r Fits encode id) :
    ReadsUpTo n (readNamed r) (fun p => p.2.Fits) encodeNamed id := by
  refine ⟨fun {bs p rest} hbs => ?_⟩
  simp only [readNamed, bind_eq_ok_iff, pure_eq_ok_iff, u2_eq_ok_iff]
  constructor
  · rintro ⟨name, mid, rfl, v, mid', hv, rfl, rfl⟩
    have hmid : mid.length ≤ n := by
      rw [List.length_append] at hbs
      omega
    obtain ⟨v, hfits, rfl, rfl⟩ := (h.eq_ok_iff hmid).1 hv
    exact ⟨(name, v), hfits, rfl, by simp [encodeNamed]⟩
  · rintro ⟨⟨name, v⟩, hfits, rfl, rfl⟩
    simp only [encodeNamed, List.append_assoc] at hbs ⊢
    have hmid : (v.encode ++ rest).length ≤ n := by
      rw [List.length_append] at hbs
      omega
    exact ⟨name, _, rfl, v, rest, (h.eq_ok_iff hmid).2 ⟨v, hfits, rfl, rfl⟩, rfl, rfl⟩

/-- The tags of constants are those listed, compared as bytes. -/
lemma any_constantTags_iff (tag : UInt8) :
    (constantTags.any fun c => c.toUInt8 == tag) = true ↔ tag ∈ constantTags.map Char.toUInt8 := by
  simp only [List.any_eq_true, beq_iff_eq, List.mem_map]

/-- A value is read from its encoding, however deep it nests. -/
lemma readsUpTo_readWith (fuel : Nat) : ReadsUpTo fuel (readWith fuel) Fits encode id := by
  induction fuel with
  | zero =>
    refine ⟨fun {bs y rest} hbs => ?_⟩
    obtain rfl := List.length_eq_zero_iff.1 (Nat.le_zero.1 hbs)
    simp [readWith, fail, encode_ne_nil]
  | succ fuel ih =>
    refine ⟨fun {bs y rest} hbs => ?_⟩
    have hnamed := (readsUpTo_readNamed ih).counted
    simp only [readWith, bind_eq_ok_iff, u1_eq_ok_iff]
    -- Forwards the tag says which value was read; backwards the value says which tag is found.
    constructor
    · rintro ⟨tag, mid, rfl, h⟩
      have hmid : mid.length ≤ fuel := by simpa using hbs
      split at h
      · rename_i htag
        simp only [map_eq_ok_iff, u2_eq_ok_iff] at h
        obtain ⟨index, rfl, rfl⟩ := h
        exact ⟨.constant tag index, (any_constantTags_iff tag).1 htag, rfl, rfl⟩
      split at h
      · rename_i htag
        subst htag
        simp only [seq_eq_ok_iff, map_eq_ok_iff, u2_eq_ok_iff] at h
        obtain ⟨_, _, constName, ⟨typeName, rfl, rfl⟩, rfl, rfl⟩ := h
        exact ⟨.enumConstant typeName constName, trivial, rfl, by simp [encode]⟩
      split at h
      · rename_i htag
        subst htag
        simp only [seq_eq_ok_iff, map_eq_ok_iff, u2_eq_ok_iff] at h
        obtain ⟨_, mid', elements, ⟨typeIndex, rfl, rfl⟩, helements, rfl⟩ := h
        have hmid' : mid'.length ≤ fuel := by
          rw [List.length_append] at hmid
          omega
        obtain ⟨elements, hfits, rfl, rfl⟩ := (hnamed.eq_ok_iff hmid').1 helements
        refine ⟨.nested typeIndex elements, (fits_nested _ _).2 hfits, by simp, ?_⟩
        rw [encode_nested, List.cons_append, List.append_assoc]
      split at h
      · rename_i htag
        subst htag
        simp only [map_eq_ok_iff] at h
        obtain ⟨values, hvalues, rfl⟩ := h
        obtain ⟨values, hfits, rfl, rfl⟩ := (ih.counted.eq_ok_iff hmid).1 hvalues
        refine ⟨.array values, (fits_array _).2 hfits, by simp, ?_⟩
        rw [encode_array, List.cons_append]
      · simp only [fail_eq_ok_iff] at h
    · rintro ⟨v, hfits, rfl, rfl⟩
      cases v with
      | constant tag index =>
        refine ⟨tag, _, by rw [encode, List.cons_append], ?_⟩
        rw [if_pos ((any_constantTags_iff tag).2 hfits)]
        simp only [map_eq_ok_iff, u2_eq_ok_iff]
        exact ⟨index, rfl, rfl⟩
      | enumConstant typeName constName =>
        refine ⟨_, _, by rw [encode, List.cons_append, List.append_assoc], ?_⟩
        rw [if_neg (by decide), if_pos rfl]
        simp only [seq_eq_ok_iff, map_eq_ok_iff, u2_eq_ok_iff]
        exact ⟨_, _, constName, ⟨typeName, rfl, rfl⟩, rfl, rfl⟩
      | nested typeIndex elements =>
        rw [encode_nested, List.cons_append, List.append_assoc] at hbs ⊢
        have hrest : (encodeCounted encodeNamed elements ++ rest).length ≤ fuel := by
          simp only [List.length_cons, List.length_append] at hbs ⊢
          omega
        refine ⟨_, _, rfl, ?_⟩
        rw [if_neg (by decide), if_neg (by decide), if_pos rfl]
        simp only [seq_eq_ok_iff, map_eq_ok_iff, u2_eq_ok_iff]
        exact ⟨_, _, elements, ⟨typeIndex, rfl, rfl⟩, (hnamed.eq_ok_iff hrest).2
          ⟨elements, (fits_nested _ _).1 hfits, by simp, rfl⟩, rfl⟩
      | array values =>
        rw [encode_array, List.cons_append] at hbs ⊢
        refine ⟨_, _, rfl, ?_⟩
        rw [if_neg (by decide), if_neg (by decide), if_neg (by decide), if_pos rfl]
        simp only [map_eq_ok_iff]
        exact ⟨values, (ih.counted.eq_ok_iff (by simpa using hbs)).2
          ⟨values, (fits_array _).1 hfits, by simp, rfl⟩, rfl⟩

end ElementValue

/-! ### Lists of annotations -/

namespace AnnotationList

/-- The elements of an annotation are read from their encoding, with any bound that the bytes keep
to. -/
lemma readsUpTo_readBody (size : Nat) :
    ReadsUpTo size (readBody size) (fun elements => elements.length < 2 ^ 16 ∧
      ∀ p ∈ elements, p.2.Fits) (encodeCounted ElementValue.encodeNamed) id := by
  have h := (ElementValue.readsUpTo_readNamed (ElementValue.readsUpTo_readWith size)).counted
  rwa [List.map_id_fun] at h

/-- An annotation is read from its encoding, and its type is what is kept. -/
lemma readsUpTo_readType (pool : ConstantPool) (size : Nat) :
    ReadsUpTo size (readType pool size) (AnnotationEntry.WellFormed pool)
      AnnotationEntry.encode (fun a => pool.textAt a.typeIndex) := by
  refine ⟨fun {bs y rest} hbs => ?_⟩
  simp only [readType, bind_eq_ok_iff, u2_eq_ok_iff, lift_eq_ok_iff, pure_eq_ok_iff,
    ConstantPool.text_eq_ok_iff]
  constructor
  · rintro ⟨typeIndex, mid, rfl, _, _, ⟨⟨htype, rfl⟩, rfl⟩, _, _, hbody, rfl, rfl⟩
    have hmid : mid.length ≤ size := by
      rw [List.length_append] at hbs
      omega
    obtain ⟨elements, ⟨hcount, helements⟩, -, rfl⟩ :=
      ((readsUpTo_readBody size).eq_ok_iff hmid).1 hbody
    exact ⟨⟨typeIndex, elements⟩, ⟨htype, hcount, helements⟩, rfl,
      by simp [AnnotationEntry.encode]⟩
  · rintro ⟨⟨typeIndex, elements⟩, ⟨htype, hcount, helements⟩, rfl, rfl⟩
    simp only [AnnotationEntry.encode, List.append_assoc] at hbs ⊢
    have hmid : (encodeCounted ElementValue.encodeNamed elements ++ rest).length ≤ size := by
      rw [List.length_append] at hbs
      omega
    exact ⟨typeIndex, _, rfl, _, _, ⟨⟨htype, rfl⟩, rfl⟩, elements, rest,
      ((readsUpTo_readBody size).eq_ok_iff hmid).2 ⟨elements, ⟨hcount, helements⟩, rfl, rfl⟩,
      rfl, rfl⟩

/-- A list of annotations is read from its encoding; the bytes themselves are the bound. -/
lemma readTypes_eq_ok_iff {pool : ConstantPool} {bs rest : Bytes} {types : List String} :
    readTypes pool bs = .ok (types, rest) ↔
      ∃ list : List AnnotationEntry, (list.length < 2 ^ 16 ∧ ∀ a ∈ list, a.WellFormed pool) ∧
        list.map (fun a => pool.textAt a.typeIndex) = types ∧
          bs = encodeCounted AnnotationEntry.encode list ++ rest :=
  (readsUpTo_readType pool bs.length).counted.eq_ok_iff le_rfl

end AnnotationList

/-! ### Attributes and fields -/

/-- An attribute is read from its encoding and from nothing else. -/
lemma Attribute.read_eq_ok_iff {a : Attribute} {bs rest : Bytes} :
    Attribute.read bs = .ok (a, rest) ↔ a.Fits ∧ bs = a.encode ++ rest := by
  simp only [Attribute.read, bind_eq_ok_iff, u2_eq_ok_iff, u4_eq_ok_iff, take_eq_ok_iff,
    pure_eq_ok_iff]
  constructor
  · rintro ⟨name, _, rfl, size, _, rfl, body, _, ⟨rfl, hsize⟩, rfl, rfl⟩
    refine ⟨?_, by simp [Attribute.encode, hsize]⟩
    rw [Attribute.Fits, hsize]
    exact size.toNat_lt
  · rintro ⟨hfits, rfl⟩
    have hsize : a.body.length.toUInt32.toNat = a.body.length := UInt32.toNat_ofNat_of_lt hfits
    simp only [Attribute.encode, List.append_assoc]
    exact ⟨a.name, _, rfl, a.body.length.toUInt32, _, by rw [hsize], a.body, rest,
      ⟨rfl, hsize.symm⟩, rfl, rfl⟩

/-- The number of bytes is no matter for an attribute. -/
lemma Attribute.readsUpTo_read (n : Nat) :
    ReadsUpTo n Attribute.read Attribute.Fits Attribute.encode id := by
  refine ⟨fun {bs a rest} _ => ?_⟩
  rw [Attribute.read_eq_ok_iff]
  constructor
  · rintro ⟨hfits, rfl⟩
    exact ⟨a, hfits, rfl, rfl⟩
  · rintro ⟨_, hfits, rfl, rfl⟩
    exact ⟨hfits, rfl⟩

/-- A field is read from its encoding, with its attributes. -/
lemma Member.readsUpTo_read (n : Nat) :
    ReadsUpTo n Member.read Member.Fits Member.encode id := by
  refine ⟨fun {bs m rest} hbs => ?_⟩
  have hattributes := (Attribute.readsUpTo_read n).counted
  simp only [Member.read, seq_eq_ok_iff, map_eq_ok_iff, u2_eq_ok_iff]
  constructor
  · rintro ⟨_, mid, attributes, ⟨_, _, descriptor, ⟨_, _, name, ⟨access, rfl, rfl⟩, rfl, rfl⟩,
      rfl, rfl⟩, h, rfl⟩
    have hmid : mid.length ≤ n := by
      simp only [List.length_append] at hbs
      omega
    obtain ⟨attributes, hfits, rfl, rfl⟩ := (hattributes.eq_ok_iff hmid).1 h
    exact ⟨⟨access, name, descriptor, attributes⟩, hfits, by simp, by simp [Member.encode]⟩
  · rintro ⟨⟨access, name, descriptor, attributes⟩, hfits, rfl, rfl⟩
    simp only [Member.encode, List.append_assoc] at hbs ⊢
    have hmid : (encodeCounted Attribute.encode attributes ++ rest).length ≤ n := by
      simp only [List.length_append] at hbs ⊢
      omega
    exact ⟨_, _, attributes, ⟨_, _, descriptor, ⟨_, _, name, ⟨access, rfl, rfl⟩, rfl, rfl⟩,
      rfl, rfl⟩, (hattributes.eq_ok_iff hmid).2 ⟨attributes, hfits, by simp, rfl⟩, rfl⟩

/-! ### Methods -/

/-- A value is among the images of others if one of these has it as its image. -/
lemma contains_map {α β : Type} [BEq β] [LawfulBEq β] (f : α → β) (xs : List α) (y : β) :
    (xs.map f).contains y = xs.any fun x => f x == y := by
  induction xs with
  | nil => rfl
  | cons x xs ih => rw [List.map_cons, List.contains_cons, List.any_cons, ih, Bool.beq_comm]

namespace MethodAttribute

/-- The attribute that marks a method is not named like one with annotations. -/
lemma deprecatedAttribute_notMem : deprecatedAttribute ∉ annotationAttributes := by decide

/-- What an attribute says of a method is read from an attribute that has annotations if its
name asks for them. -/
lemma readDeprecation_eq_ok_iff {pool : ConstantPool} {mark : Bool} {bs rest : Bytes} :
    readDeprecation pool bs = .ok (mark, rest) ↔
      ∃ attr : MethodAttribute, attr.WellFormed pool ∧ attr.marks pool = mark ∧
        bs = attr.toAttribute.encode ++ rest := by
  simp only [readDeprecation, bind_eq_ok_iff, Attribute.read_eq_ok_iff, lift_eq_ok_iff,
    ConstantPool.text_eq_ok_iff]
  constructor
  · rintro ⟨a, _, ⟨hfits, rfl⟩, _, _, ⟨⟨hname, rfl⟩, rfl⟩, h⟩
    split at h
    · rename_i hdeprecated
      obtain ⟨rfl, rfl⟩ := pure_eq_ok_iff.1 h
      -- An attribute that marks by its name is not looked into.
      refine ⟨.plain a, ⟨hname, hfits, ?_⟩, by simpa [marks] using hdeprecated, rfl⟩
      change pool.textAt a.name ∉ annotationAttributes
      rw [hdeprecated]
      exact deprecatedAttribute_notMem
    split at h
    · rename_i hannotations
      simp only [bind_eq_ok_iff, within_eq_ok_iff, AnnotationList.readTypes_eq_ok_iff,
        pure_eq_ok_iff] at h
      obtain ⟨_, _, ⟨⟨left, list, ⟨hcount, hlist⟩, rfl, hbody⟩, rfl⟩, rfl, rfl⟩ := h
      have ha : (annotations a.name list left).toAttribute = a := by
        rw [toAttribute, ← hbody]
      refine ⟨.annotations a.name list left, ⟨?_, ?_, hannotations, hcount, hlist⟩, ?_, ?_⟩
      · rwa [ha]
      · rwa [ha]
      · rw [contains_map, marks]
      · rw [ha]
    · rename_i hdeprecated hannotations
      obtain ⟨rfl, rfl⟩ := pure_eq_ok_iff.1 h
      exact ⟨.plain a, ⟨hname, hfits, hannotations⟩, by simpa [marks] using hdeprecated, rfl⟩
  · rintro ⟨attr, ⟨hname, hfits, hkind⟩, rfl, rfl⟩
    refine ⟨_, _, ⟨hfits, rfl⟩, _, _, ⟨⟨hname, rfl⟩, rfl⟩, ?_⟩
    cases attr with
    | annotations name list left =>
      obtain ⟨hannotations, hlist⟩ := hkind
      rw [if_neg, if_pos (by exact hannotations)]
      · simp only [bind_eq_ok_iff, within_eq_ok_iff, AnnotationList.readTypes_eq_ok_iff,
          pure_eq_ok_iff]
        refine ⟨_, rest, ⟨⟨left, list, hlist, rfl, rfl⟩, rfl⟩, ?_, rfl⟩
        rw [contains_map, marks]
      · intro hdeprecated
        exact deprecatedAttribute_notMem (hdeprecated ▸ hannotations)
    | plain a =>
      split
      · rename_i hdeprecated
        exact pure_eq_ok_iff.2 ⟨by simpa [marks, toAttribute] using hdeprecated, rfl⟩
      · rename_i hdeprecated
        rw [if_neg (by exact hkind)]
        exact pure_eq_ok_iff.2 ⟨by simpa [marks, toAttribute] using hdeprecated, rfl⟩

/-- An attribute of a method is read from its encoding, and whether it marks the method is what is
kept. -/
lemma readsUpTo_readDeprecation (pool : ConstantPool) (n : Nat) :
    ReadsUpTo n (readDeprecation pool) (MethodAttribute.WellFormed pool)
      (fun attr => attr.toAttribute.encode) (marks pool) :=
  ⟨fun _ => readDeprecation_eq_ok_iff⟩

end MethodAttribute

/-- The parameter types of a descriptor are those of the signature that it spells. -/
lemma parametersOf_eq_ok_iff {descriptor : String} {ts : List FieldType} :
    parametersOf descriptor = .ok ts ↔
      ∃ s : Descriptor.Signature, s.text = descriptor ∧ s.parameterTypes = ts := by
  rw [← Descriptor.parameters_eq_ok_iff, parametersOf]
  split <;> simp_all

namespace Method

/-- A method is its flags, its name, its descriptor and its counted attributes. -/
lemma encode_eq (m : Method) :
    m.encode = bigEndianOf 2 m.access.toNat ++ (bigEndianOf 2 m.name.toNat ++
      (bigEndianOf 2 m.descriptor.toNat ++ (bigEndianOf 2 m.attributes.length ++
        m.attributes.flatMap fun attr => attr.toAttribute.encode))) := by
  simp [encode, Member.encode, toMember, encodeCounted, List.flatMap_map]

/-- A method is read from its encoding and from nothing else; what is kept of it is computed from
the method. -/
lemma readMethod_eq_ok_iff {pool : ConstantPool} {s : Option MethodSummary} {bs rest : Bytes} :
    readMethod pool bs = .ok (s, rest) ↔
      ∃ m : Method, m.WellFormed pool ∧ m.summary? pool = s ∧ bs = m.encode ++ rest := by
  have hmarks (count : Nat) (n : Nat) :=
    (MethodAttribute.readsUpTo_readDeprecation pool n).times count
  simp only [readMethod, bind_eq_ok_iff, u2_eq_ok_iff, lift_eq_ok_iff,
    ConstantPool.text_eq_ok_iff]
  constructor
  · rintro ⟨access, _, rfl, nameIndex, _, rfl, descriptorIndex, _, rfl, count, mid, rfl, _, _,
      ⟨⟨hname, rfl⟩, rfl⟩, _, _, ⟨⟨hdescriptor, rfl⟩, rfl⟩, _, _, h, hsummary⟩
    obtain ⟨attributes, ⟨hcount, hattributes⟩, rfl, rfl⟩ :=
      ((hmarks count.toNat mid.length).eq_ok_iff le_rfl).1 h
    have hlt : attributes.length < 2 ^ 16 := hcount ▸ count.toNat_lt
    split at hsummary
    · rename_i hstatic
      obtain ⟨rfl, rfl⟩ := pure_eq_ok_iff.1 hsummary
      -- The descriptor of a static initializer is not read, so any signature stands for it.
      refine ⟨⟨access, nameIndex, descriptorIndex, attributes, ⟨[], none⟩⟩,
        ⟨hname, hdescriptor, hlt, hattributes, fun hne => absurd hstatic hne⟩, ?_, ?_⟩
      · rw [summary?, if_pos hstatic]
      · simp [encode_eq, hcount]
    · rename_i hstatic
      simp only [bind_eq_ok_iff, lift_eq_ok_iff, parametersOf_eq_ok_iff, pure_eq_ok_iff]
        at hsummary
      obtain ⟨_, _, ⟨⟨signature, htext, rfl⟩, rfl⟩, rfl, rfl⟩ := hsummary
      refine ⟨⟨access, nameIndex, descriptorIndex, attributes, signature⟩,
        ⟨hname, hdescriptor, hlt, hattributes, fun _ => htext.symm⟩, ?_, ?_⟩
      · rw [summary?, if_neg hstatic]
        simp only [contains_map, beq_true]
      · simp [encode_eq, hcount]
  · rintro ⟨m, hm, rfl, rfl⟩
    have hcount : m.attributes.length.toUInt16.toNat = m.attributes.length :=
      UInt16.toNat_ofNat_of_lt hm.count
    simp only [encode_eq, List.append_assoc]
    refine ⟨m.access, _, rfl, m.name, _, rfl, m.descriptor, _, rfl,
      m.attributes.length.toUInt16, _, by rw [hcount], _, _, ⟨⟨hm.name, rfl⟩, rfl⟩, _, _,
      ⟨⟨hm.descriptor, rfl⟩, rfl⟩, _, rest, ((hmarks _ _).eq_ok_iff le_rfl).2
        ⟨m.attributes, ⟨hcount.symm, hm.attributes⟩, rfl, rfl⟩, ?_⟩
    rw [summary?]
    split
    · exact pure_eq_ok_iff.2 ⟨rfl, rfl⟩
    · rename_i hstatic
      simp only [bind_eq_ok_iff, lift_eq_ok_iff, parametersOf_eq_ok_iff, pure_eq_ok_iff]
      refine ⟨_, rest, ⟨⟨m.signature, (hm.signature hstatic).symm, rfl⟩, rfl⟩, ?_, rfl⟩
      simp only [contains_map, beq_true]

/-- The number of bytes is no matter for a method. -/
lemma readsUpTo_readMethod (pool : ConstantPool) (n : Nat) :
    ReadsUpTo n (readMethod pool) (WellFormed pool) encode (summary? pool) :=
  ⟨fun _ => readMethod_eq_ok_iff⟩

end Method

end ClasspathIndex.ClassFile
