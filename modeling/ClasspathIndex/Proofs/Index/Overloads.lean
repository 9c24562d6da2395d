import ClasspathIndex.Proofs.ClassFile.RoundTrip
import ClasspathIndex.Proofs.Descriptor.Display
import ClasspathIndex.Proofs.Index.Lookup

/-!
# Overloads

The descriptors of a class file are gone in its symbol, which keeps argument types as they are
shown.  If the names of classes in the descriptors are plain, nothing is lost by it: asked for by
its name and the argument types that are shown of it, a method is found among the methods with its
name and the same text between the parentheses of their descriptors
(`ClassFile.map_display_eq_iff_and_tellsApart`).
-/

namespace ClasspathIndex

open Text

namespace ClassFile

variable {cf : ClassFile} {pool : ConstantPool} {k m : Method} {x y : MethodSymbol}

/-! ### Methods and their symbols -/

namespace Method

/-- The symbol of a method; a static initialiser has none. -/
def symbol? (pool : ConstantPool) (m : Method) : Option MethodSymbol :=
  (m.summary? pool).map MethodSymbol.ofSummary

/-- Whether two methods have one name, and the same text between the parentheses of their
descriptors. -/
def SameParameters (pool : ConstantPool) (k m : Method) : Prop :=
  pool.textAt k.name = pool.textAt m.name ∧
    Descriptor.parameterBytes (pool.textAt k.descriptor) =
      Descriptor.parameterBytes (pool.textAt m.descriptor)

instance (pool : ConstantPool) (k m : Method) : Decidable (k.SameParameters pool m) :=
  inferInstanceAs (Decidable (_ ∧ _))

/-- A method that is kept has the name and the argument types that it is written with. -/
lemma symbol?_eq_some (h : m.symbol? pool = some x) :
    pool.textAt m.name ≠ staticInitializer ∧ x.name = pool.textAt m.name ∧
      x.argumentTypes = m.signature.parameterTypes.map FieldType.display := by
  unfold symbol? summary? at h
  split at h
  · simp at h
  · rename_i hname
    rw [Option.map_some, Option.some.injEq] at h
    subst h
    exact ⟨hname, rfl, rfl⟩

/-- Every method but the static initializer is kept. -/
lemma isSome_symbol? (h : pool.textAt m.name ≠ staticInitializer) :
    (m.symbol? pool).isSome = true := by
  rw [symbol?, summary?, if_neg h]
  rfl

/-- Of methods with plain names, those fit that have the same parameters. -/
lemma fits_iff_sameParameters (hk : k.WellFormed pool) (hm : m.WellFormed pool)
    (hkplain : Descriptor.NamesArePlain (pool.textAt k.descriptor))
    (hmplain : Descriptor.NamesArePlain (pool.textAt m.descriptor))
    (hy : k.symbol? pool = some y) (hx : m.symbol? pool = some x) :
    ClassSymbol.fits x.name (some x.argumentTypes) y = true ↔ k.SameParameters pool m := by
  obtain ⟨hkname, hyname, hytypes⟩ := symbol?_eq_some hy
  obtain ⟨hmname, hxname, hxtypes⟩ := symbol?_eq_some hx
  rw [hk.signature hkname] at hkplain
  rw [hm.signature hmname] at hmplain
  rw [ClassSymbol.fits_selector_iff, MethodSymbol.selector_eq_iff, hyname, hxname, hytypes, hxtypes,
    Descriptor.map_display_eq_iff_parameterBytes_eq (Descriptor.parameters_text _)
      (Descriptor.parameters_text _) hkplain hmplain,
    SameParameters, hk.signature hkname, hm.signature hmname]

end Method

/-! ### Classes -/

/-- The methods of a class file with the name and the parameters of a method. -/
def overloadsOf (cf : ClassFile) (m : Method) : List Method :=
  cf.methods.filter fun k => k.SameParameters cf.pool m

/-- Whether the names of classes are plain in the descriptors of all methods but static
initialisers. -/
def NamesArePlain (cf : ClassFile) : Prop :=
  ∀ m ∈ cf.methods, cf.pool.textAt m.name ≠ staticInitializer →
    Descriptor.NamesArePlain (cf.pool.textAt m.descriptor)

/-- Whether a byte string starts with a class file. -/
def StandsAt (cf : ClassFile) (bs : Bytes) : Prop :=
  cf.WellFormed ∧ ∃ t, bs = cf.encode ++ t

/-- Whether a class tells a method from all that have another name or other parameters: these do
not fit, so that the method is selected if no other one has its name and parameters, and otherwise
those that have them are counted. -/
structure TellsApart (cf : ClassFile) (c : ClassSymbol) (m : Method) (x : MethodSymbol) :
    Prop where
  fitting : c.methods.filter (ClassSymbol.fits x.name (some x.argumentTypes)) =
    (cf.overloadsOf m).filterMap (Method.symbol? cf.pool)
  counted : (c.methods.filter (ClassSymbol.fits x.name (some x.argumentTypes))).length =
    (cf.overloadsOf m).length
  answer : c.selectMethod x.name (some x.argumentTypes) =
    if (cf.overloadsOf m).length = 1 then .ok x
    else .error (.methodAmbiguous c.name x.name (some x.argumentTypes)
      (List.replicate (cf.overloadsOf m).length x.signature))

/-- The methods of a class are those that are kept, in their order. -/
lemma methods_ofSummary_view (cf : ClassFile) :
    (ClassSymbol.ofSummary cf.view).methods = cf.methods.filterMap (Method.symbol? cf.pool) :=
  List.map_filterMap

/-- A summary is the view of the class file that stands at the start of the bytes. -/
lemma exists_standsAt_iff {bs : Bytes} {s : Summary} :
    summary bs = .ok s ↔ ∃ cf : ClassFile, cf.StandsAt bs ∧ cf.view = s := by
  rw [summary_eq_ok_iff]
  constructor
  · rintro ⟨t, hread⟩
    obtain ⟨cf, hcf, hview, hbs⟩ := read_eq_ok_iff.1 hread
    exact ⟨cf, ⟨hcf, t, hbs⟩, hview⟩
  · rintro ⟨cf, ⟨hcf, t, hbs⟩, hview⟩
    exact ⟨t, read_eq_ok_iff.2 ⟨cf, hcf, hview, hbs⟩⟩

/-- The methods that fit are those with the same name and parameters. -/
lemma filter_fits_eq (hcf : cf.WellFormed) (hplain : cf.NamesArePlain) (hm : m ∈ cf.methods)
    (hx : m.symbol? cf.pool = some x) :
    (ClassSymbol.ofSummary cf.view).methods.filter
        (ClassSymbol.fits x.name (some x.argumentTypes)) =
      (cf.overloadsOf m).filterMap (Method.symbol? cf.pool) := by
  rw [methods_ofSummary_view, overloadsOf, List.filter_filterMap, List.filterMap_filter]
  refine List.filterMap_congr fun k hk => ?_
  cases hy : k.symbol? cf.pool with
  | none => simp
  | some y =>
    have hfits := Method.fits_iff_sameParameters (hcf.methods k hk) (hcf.methods m hm)
      (hplain k hk (Method.symbol?_eq_some hy).1) (hplain m hm (Method.symbol?_eq_some hx).1) hy hx
    simp only [Option.filter_some, hfits, decide_eq_true_eq]

/-- The overloads of a method that is kept are all kept. -/
lemma length_filterMap_overloadsOf (hx : m.symbol? cf.pool = some x) :
    ((cf.overloadsOf m).filterMap (Method.symbol? cf.pool)).length = (cf.overloadsOf m).length := by
  refine List.filterMap_length_eq_length.2 fun k hk => ?_
  have hsame := of_decide_eq_true (List.mem_filter.1 hk).2
  obtain ⟨hname, -⟩ := Method.symbol?_eq_some hx
  exact Method.isSome_symbol? (hsame.1 ▸ hname)

/-- The names of a class are plain if those in its signatures are. -/
lemma namesArePlain_of_signatures (hcf : cf.WellFormed)
    (h : ∀ m ∈ cf.methods, ∀ t ∈ m.signature.parameters, t.element.IsPlain) :
    cf.NamesArePlain := by
  intro m hm hname
  rw [(hcf.methods m hm).signature hname]
  exact Descriptor.namesArePlain_text_iff.2 (h m hm)

/-- With plain names, the argument types tell a method from the others as far as their texts do. -/
lemma tellsApart_of_namesArePlain (hcf : cf.WellFormed) (hplain : cf.NamesArePlain)
    (hm : m ∈ cf.methods) (hx : m.symbol? cf.pool = some x) :
    cf.TellsApart (.ofSummary cf.view) m x := by
  have hfitting := filter_fits_eq hcf hplain hm hx
  have hcounted := congrArg List.length hfitting
  rw [length_filterMap_overloadsOf hx] at hcounted
  refine ⟨hfitting, hcounted, ?_⟩
  have hmem : x ∈ (ClassSymbol.ofSummary cf.view).methods := by
    rw [methods_ofSummary_view]
    exact List.mem_filterMap.2 ⟨m, hm, hx⟩
  rw [ClassSymbol.selectMethod_eq hmem, ← ClassSymbol.length_filter_fits, hcounted]

/-- If the names of classes are plain, the argument types that are shown of a method are those of
another one exactly if the texts between the parentheses of their descriptors are the same, and
methods for which these differ are never taken for each other. -/
theorem map_display_eq_iff_and_tellsApart :
    (∀ (d : String) (ts : List FieldType), Descriptor.parameters d = .ok ts →
      ∃ result, Utf8.encode d = '('.toUInt8 ::
          (Descriptor.parameterBytes d ++ ')'.toUInt8 :: result) ∧
        Descriptor.takeParameters (Descriptor.parameterBytes d ++ [')'.toUInt8]) = .ok (ts, []) ∧
          Descriptor.takeResult result = .ok []) ∧
    (∀ (d₁ d₂ : String) (ts₁ ts₂ : List FieldType),
      Descriptor.parameters d₁ = .ok ts₁ → Descriptor.parameters d₂ = .ok ts₂ →
        Descriptor.NamesArePlain d₁ → Descriptor.NamesArePlain d₂ →
          (ts₁.map FieldType.display = ts₂.map FieldType.display ↔
            Descriptor.parameterBytes d₁ = Descriptor.parameterBytes d₂)) ∧
      ∀ (bs : Bytes) (s : Summary), summary bs = .ok s →
        (∃ cf : ClassFile, cf.StandsAt bs) ∧
          ∀ cf : ClassFile, cf.StandsAt bs → cf.NamesArePlain →
            ∀ m ∈ cf.methods, ∀ x, m.symbol? cf.pool = some x →
              cf.TellsApart (.ofSummary s) m x := by
  refine ⟨fun d ts h => Descriptor.exists_encode_eq_of_parameters h, ?_, ?_⟩
  · intro d₁ d₂ ts₁ ts₂ h₁ h₂ hd₁ hd₂
    exact Descriptor.map_display_eq_iff_parameterBytes_eq h₁ h₂ hd₁ hd₂
  · intro bs s hs
    obtain ⟨file, hfile, -⟩ := exists_standsAt_iff.1 hs
    refine ⟨⟨file, hfile⟩, fun cf hcf hplain m hm x hx => ?_⟩
    obtain rfl := Except.ok.inj (hs.symm.trans (exists_standsAt_iff.2 ⟨cf, hcf, rfl⟩))
    exact tellsApart_of_namesArePlain hcf.1 hplain hm hx

/-- A class with the name `a.B` and the methods `run(I)V`, `run([I)V`, `run(La/I;)V` and
`run(I)I`. -/
def overloadedClass : ClassFile where
  minor := 0
  major := 52
  poolCount := 8
  constants := [.utf8 (Utf8.encode "a/B"), .classInfo 1, .utf8 (Utf8.encode "run"),
    .utf8 (Utf8.encode "(I)V"), .utf8 (Utf8.encode "([I)V"), .utf8 (Utf8.encode "(La/I;)V"),
    .utf8 (Utf8.encode "(I)I")]
  access := 0x21
  thisClass := 2
  superClass := 0
  interfaces := []
  fields := []
  methods :=
    [⟨0, 3, 4, [], ⟨[⟨0, .primitive .int⟩], none⟩⟩, ⟨0, 3, 5, [], ⟨[⟨1, .primitive .int⟩], none⟩⟩,
      ⟨0, 3, 6, [], ⟨[⟨0, .named "a/I" (by decide)⟩], none⟩⟩,
      ⟨0, 3, 7, [], ⟨[⟨0, .primitive .int⟩], some ⟨0, .primitive .int⟩⟩⟩]
  attributes := []

/-- The class with the overloads is well formed. -/
lemma wellFormed_overloadedClass : overloadedClass.WellFormed where
  version := by decide
  poolCount := .inl (by decide)
  constants := by
    simp only [overloadedClass, List.forall_mem_cons, Constant.Fits]
    refine ⟨?_, trivial, ?_, ?_, ?_, ?_, ?_, by simp⟩ <;> decide +kernel
  thisClass := ⟨1, rfl, _, rfl⟩
  interfaceCount := by decide
  fieldCount := by decide
  fields := by simp [overloadedClass]
  methodCount := by decide
  methods := by
    simp only [overloadedClass, List.forall_mem_cons]
    refine ⟨?_, ?_, ?_, ?_, by simp⟩ <;>
      exact ⟨⟨_, rfl⟩, ⟨_, rfl⟩, by decide, by simp, fun _ => by decide +kernel⟩
  attributeCount := by decide
  attributes := by simp [overloadedClass]

/-- The names in the signatures of the overloads are plain. -/
lemma isPlain_overloadedClass :
    ∀ m ∈ overloadedClass.methods, ∀ t ∈ m.signature.parameters, t.element.IsPlain := by
  simp only [overloadedClass, List.forall_mem_cons]
  refine ⟨⟨trivial, by simp⟩, ⟨trivial, by simp⟩, ⟨?_, by simp⟩, ⟨trivial, by simp⟩, by simp⟩
  exact ⟨by decide, by decide, by decide⟩

/-- An overload that is told from the others, and two that are not. -/
theorem map_display_eq_iff_and_tellsApart_overloadedClass :
    (∀ k ∈ overloadedClass.methods, ∀ m ∈ overloadedClass.methods,
      (k.signature.parameterTypes.map FieldType.display =
          m.signature.parameterTypes.map FieldType.display ↔
        Descriptor.parameterBytes k.signature.text =
          Descriptor.parameterBytes m.signature.text)) ∧
      (ClassSymbol.ofSummary overloadedClass.view).selectMethod "run" (some ["int[]"]) =
        .ok ⟨"run", ["int[]"], false, false⟩ ∧
      (ClassSymbol.ofSummary overloadedClass.view).selectMethod "run" (some ["int"]) =
        .error (.methodAmbiguous "a.B" "run" (some ["int"]) ["run(int)", "run(int)"]) := by
  obtain ⟨-, hdisplay, hclass⟩ := map_display_eq_iff_and_tellsApart
  have hstands : overloadedClass.StandsAt overloadedClass.encode :=
    ⟨wellFormed_overloadedClass, [], (List.append_nil _).symm⟩
  have hplain := namesArePlain_of_signatures wellFormed_overloadedClass isPlain_overloadedClass
  obtain ⟨-, hall⟩ := hclass _ _ (exists_standsAt_iff.2 ⟨overloadedClass, hstands, rfl⟩)
  have htells := hall overloadedClass hstands hplain
  have harray : overloadedClass.TellsApart (.ofSummary overloadedClass.view)
      overloadedClass.methods[1] ⟨"run", ["int[]"], false, false⟩ :=
    htells _ (List.getElem_mem _) _ (by decide +kernel)
  have hint : overloadedClass.TellsApart (.ofSummary overloadedClass.view)
      overloadedClass.methods[0] ⟨"run", ["int"], false, false⟩ :=
    htells _ (List.getElem_mem _) _ (by decide +kernel)
  refine ⟨fun k hk m hm => ?_, harray.answer.trans (by decide +kernel),
    hint.answer.trans (by decide +kernel)⟩
  exact hdisplay _ _ _ _ (Descriptor.parameters_text _) (Descriptor.parameters_text _)
    (Descriptor.namesArePlain_text_iff.2 (isPlain_overloadedClass k hk))
    (Descriptor.namesArePlain_text_iff.2 (isPlain_overloadedClass m hm))

end ClassFile

end ClasspathIndex
