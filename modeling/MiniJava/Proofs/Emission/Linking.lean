import MiniJava.Proofs.Emission.Listing
import MiniJava.Proofs.Lowering.Calls
import MiniJava.Proofs.Symbols

/-!
# Calls of methods of the class itself

A call links if the class it goes to has a method of that name with the descriptor that the call was
emitted with. For methods of the class being compiled this can be seen from its own text. A
descriptor is written twice, on different ways: in a heading from the declaration, in a call from
the declared parameters and from the annotation.

**Theorem** (`own_object_calls_link`). In a program with different class names, a call on an object
of the class itself, of a method that the class declares, has the descriptor of a heading in the
same text, and its arguments are assignable to the parameters, class names apart.

Calls through the name of the class are another matter. The annotator treats them like calls of an
imported class: the arguments are not compared with the parameters, and the type of the result is
the one that the surroundings expect.

**Theorem** (`own_static_calls_agree_iff`). If method names are different as well, all calls of a
method through the name of its class agree with its declaration exactly if the method is static and
all those calls have arguments of assignable types and are annotated with the declared type.
-/

namespace MiniJava

open Ir Lower

/-! ## Calls on objects of the class -/

namespace Expr

variable {sc : Scope} {types : TypeMap} {mk : Bool} {e : Expr} {c c' : Counters} {o : Operand}
  {code : List Instr} {P : Ty → Prop}

/-- A method of the class is called with the parameter types of its declaration, unless the number
of arguments is another. -/
theorem Makes.params_eq {made : Call} {sig : MethodSymbols} (h : e.Makes sc types made)
    (htarget : made.target.ty = sc.thisTy) (hsig : sc.cls.method? made.method = some sig) :
    made.params = if sig.params.length = made.args.length then some (sig.params.map Symbol.ty)
      else none := by
  obtain ⟨n, r, m, args, mk, as, t, c, c₁, c₂, k₁, k₂, rfl, -, -, rfl⟩ := h
  have hthis : t.ty = sc.thisTy := htarget
  have hmethod : sc.cls.method? m.node = some sig := hsig
  simp [Call.of, declaredParams, hthis, hmethod]

/-- The types that a declared method of the class is called with. -/
theorem Makes.passed_eq {made : Call} {md : MethodDecl} (h : e.Makes sc types made)
    (htarget : made.target.ty = sc.thisTy) (hsig : sc.cls.method? made.method = some md.symbols) :
    made.params.getD (made.args.map Operand.ty) =
      if md.params.length = made.args.length then md.params.map fun q => q.ty.node
      else made.args.map Operand.ty := by
  rw [h.params_eq htarget hsig]
  by_cases hcount : md.params.length = made.args.length <;>
    simp [MethodDecl.symbols, VarDecl.symbol, hcount]

/-- On an object of the class, a method of the class is called with the types of its declaration. -/
theorem Makes.of_own_object {made : Call} {sig : MethodSymbols} (h : e.Makes sc types made)
    (hnotes : Hold types.Has (e.annotate sc).notes) (hkind : made.kind = .virtual)
    (htarget : made.target.ty = sc.thisTy) (hsig : sc.cls.method? made.method = some sig) :
    made.params = some (sig.params.map Symbol.ty) ∧ made.ty = sig.returnTy ∧
      List.Forall₂ (fun o q => o.isClass = false → sc.assignable o.ty q.ty = true) made.args
        sig.params := by
  have hparams := h.params_eq htarget hsig
  obtain ⟨n, r, m, args, mk, as, t, c, c₁, c₂, k₁, k₂, rfl, hargs, hr, rfl⟩ := h
  have hplaced := placed_call hnotes
  have hobject : t.isClass = false := by
    cases ht : t.isClass with
    | false => rfl
    | true => simp [Call.of, ht] at hkind
  have hthis : (r.annotate sc).value = some sc.thisTy :=
    (hr.value_of_required hplaced.receiver hobject).1.trans (congrArg some htarget)
  have hfit := hargs.args_fit (hplaced.params sig hthis hsig)
  have hvalue : ((call n r m args).annotate sc).value = some sig.returnTy := by
    simp only [annotate, Noted.value_bind, value_settle, hthis]
    exact value_callTy_own hsig
  have hty : types.get? n.id = some sig.returnTy := (holds_of_value hnotes hvalue).1
  exact ⟨hparams.trans (if_pos hfit.length_eq.symm), by simp [Call.of, hty], hfit⟩

/-! ## Calls through the name of a class -/

/-- The type of the operand that an expression is lowered to: the class that it names, or the type
of the annotation. -/
def operandTy (sc : Scope) (types : TypeMap) (e : Expr) : Ty :=
  match e.className? sc with
  | some cl => .cls cl
  | none => (types.get? e.id).getD .void

theorem Lowers.ty_eq (hl : Lowers sc types mk e c o c' code) (h : e.Placed sc types.Has P) :
    o.ty = e.operandTy sc types := by
  cases hcl : e.className? sc with
  | some cl =>
    rw [(hl.of_className hcl).1, operandTy, hcl]
    rfl
  | none =>
    have ho : o.isClass = false := by
      cases o with
      | cls cl => exact absurd rfl (hl.ne_cls hcl cl)
      | _ => rfl
    rw [operandTy, hcl, (hl.ty_of_placed h ho).1]
    rfl

theorem LowersAll.tys_eq {es : List Expr} {os : List Operand}
    (hl : LowersAll sc types mk es c os c' code) (h : ∀ e ∈ es, e.Placed sc types.Has P) :
    os.map Operand.ty = es.map (operandTy sc types) := by
  induction es generalizing c os code with
  | nil =>
    obtain ⟨rfl, -⟩ := lowersAll_nil.1 hl
    rfl
  | cons e es ih =>
    obtain ⟨o, c₁, k₁, os', k₂, he, hrest, rfl, rfl⟩ := lowersAll_cons.1 hl
    obtain ⟨hhead, htail⟩ := List.forall_mem_cons.1 h
    rw [List.map_cons, List.map_cons, he.ty_eq hhead, ih hrest htail]

section

variable {n : Node} {r : Expr} {m : Located String} {args : List Expr} {made : Call}

theorem Makes.static_iff {cl : String} (h : (call n r m args).Makes sc types made) :
    made.kind = .static ∧ made.target = .cls cl ↔ r.className? sc = some cl := by
  obtain ⟨n', r', m', args', mk, as, t, c, c₁, c₂, k₁, k₂, heq, -, hr, rfl⟩ := h
  injection heq with _ hr'
  subst hr'
  constructor
  · intro ⟨_, ht⟩
    cases hcl : r.className? sc with
    | none => exact absurd ht (hr.ne_cls hcl cl)
    | some cl' =>
      have hcls : Operand.cls cl' = .cls cl := (hr.of_className hcl).1.symm.trans ht
      injection hcls with hcls
      rw [hcls]
  · intro hcl
    obtain ⟨rfl, -, -⟩ := hr.of_className hcl
    exact ⟨rfl, rfl⟩

theorem Makes.exists_call (h : e.Makes sc types made) : ∃ n r m args, e = call n r m args := by
  obtain ⟨n, r, m, args, _, _, _, _, _, _, _, _, he, -⟩ := h
  exact ⟨n, r, m, args, he⟩

theorem Makes.types_eq (h : (call n r m args).Makes sc types made)
    (hnotes : Hold types.Has ((call n r m args).annotate sc).notes) :
    made.method = m.node ∧ made.args.map Operand.ty = args.map (operandTy sc types) ∧
      made.ty = (types.get? n.id).getD .void := by
  obtain ⟨n', r', m', args', mk, as, t, c, c₁, c₂, k₁, k₂, heq, hargs, -, rfl⟩ := h
  injection heq with hn _ hm hargs'
  subst hn hm hargs'
  exact ⟨rfl, hargs.tys_eq (placed_call hnotes).args, rfl⟩

end

end Expr

/-! ## Methods of a class -/

/-- The scope of a method, in the table of the program. -/
def Program.scopeOf (p : Program) (d : ClassDecl) (md : MethodDecl) : Scope :=
  md.scope (.ofProgram p) d.symbols md.symbols

/-- The call is made with the types of the method, and its arguments are assignable to the
parameters, class names apart. -/
structure Ir.Call.Fits (sc : Scope) (call : Call) (callee : Method) : Prop where
  isMethod : callee.isConstructor = false
  name : callee.name = call.method
  params : call.params = some (callee.params.map Symbol.ty)
  result : call.ty = callee.returnTy
  args : List.Forall₂ (fun o q => o.isClass = false → sc.assignable o.ty q.ty = true) call.args
    callee.params

/-- A call with arguments and a result of these types agrees with the declaration of a static
method. -/
structure MethodDecl.Admits (sc : Scope) (u : ClassUnit) (args : List Ty) (result : Ty)
    (md : MethodDecl) : Prop where
  static : md.isStatic = true
  args : List.Forall₂ (fun ty q => sc.assignable ty q.ty.node = true) args md.params
  result : u.descriptor result = u.descriptor md.returnTy.node

/-- The call is one of the method through the name of the class. -/
def Ir.Call.Through (cl m : String) (call : Call) : Prop :=
  call.kind = .static ∧ call.target = .cls cl ∧ call.method = m

/-- A lowered method has the heading of its declaration, with the parameters of the table. -/
theorem ClassDecl.LowersTo.exists_callee {table : SymbolTable} {types : TypeMap}
    {cls : ClassSymbols} {d : ClassDecl} {u : ClassUnit} (h : d.LowersTo table types u)
    (hcls : table.class? d.name.node = some cls) {md : MethodDecl} (hmd : md ∈ d.methods)
    {sig : MethodSymbols} (hsig : cls.method? md.name.node = some sig) :
    ∃ callee ∈ u.methods, callee.isConstructor = false ∧ callee.name = md.name.node ∧
      callee.params = sig.params ∧ callee.returnTy = md.returnTy.node := by
  obtain ⟨cls', ms, hcls', -, hmethods, hto, -⟩ := h
  obtain rfl : cls = cls' := Option.some.inj (hcls.symm.trans hcls')
  obtain ⟨callee, hcallee, c, c', events, hrun⟩ := hto md hmd
  have hmem : callee ∈ u.methods := by
    rw [hmethods]
    exact List.mem_append_left _ hcallee
  obtain ⟨method, body, hmethod, -, heq⟩ := MethodDecl.lower_eq hrun
  obtain rfl : sig = method := Option.some.inj (hsig.symm.trans hmethod)
  subst heq
  exact ⟨_, hmem, rfl, rfl, rfl, rfl⟩

namespace Program

variable {p : Program} {a : Annotation} {c : Counters} {units : List ClassUnit} {u : ClassUnit}
  {d : ClassDecl} {md : MethodDecl} {made : Call}

/-- Every unit comes from a class, which is found in the table. -/
theorem exists_class (hclasses : (p.classes.map fun d => d.name.node).Nodup) {types : TypeMap}
    (hlow : ((p.lower (.ofProgram p) types).run c).result = .ok units) (hu : u ∈ units) :
    ∃ d ∈ p.classes, d.name.node = u.name ∧ d.LowersTo (.ofProgram p) types u ∧
      (SymbolTable.ofProgram p).class? d.name.node = some d.symbols := by
  obtain ⟨c', events, hrun⟩ := Stage.run_of_result hlow
  obtain ⟨d, hd, hto⟩ := (lower_ok hrun).2 u hu
  have hname : u.name = d.name.node := by
    obtain ⟨cls, ms, -, hname, -⟩ := hto
    exact hname
  exact ⟨d, hd, hname.symm, hto, SymbolTable.class?_ofProgram hclasses hd⟩

/-- On an object of the class, a method of the class is called as it is declared. -/
theorem fits_of_own_object (h : p.checked (.ofProgram p) = .ok a) (hd : d ∈ p.classes)
    (hcls : (SymbolTable.ofProgram p).class? d.name.node = some d.symbols)
    (hto : d.LowersTo (.ofProgram p) a.types u) {m : Method} (hm : m ∈ u.methods)
    (hmade : made ∈ Ir.calls m.code) (hkind : made.kind = .virtual)
    (htarget : made.target.ty = .cls d.name.node) (hmd : md ∈ d.methods)
    (hname : md.name.node = made.method) :
    ∃ callee ∈ u.methods, made.Fits (p.scopeOf d md) callee := by
  obtain ⟨hids, hcheck⟩ := checked_ok_iff.1 h
  obtain ⟨caller, hcaller, method, hmethod, e, he, hmakes⟩ := hto.exists_source hcls hm hmade
  have hnotes := Stmt.hold_callsAll (recorded_body hids hcheck hd hcls hcaller hmethod) e he
  obtain ⟨first, hfirst, hsame, hsig⟩ := ClassDecl.exists_method?_symbols hmd
  obtain ⟨callee, hcallee, hisMethod, hcname, hcparams, hcresult⟩ :=
    hto.exists_callee hcls hfirst (hsame ▸ hsig)
  rw [hname] at hsig
  obtain ⟨hparams, hresult, hargs⟩ := hmakes.of_own_object hnotes hkind htarget hsig
  exact ⟨callee, hcallee, hisMethod, by rw [hcname, hsame, hname], by rw [hparams, hcparams],
    by rw [hresult, hcresult]; rfl, by rw [hcparams]; exact hargs⟩

/-- Through the name of the class, methods are called with the types of the annotation. -/
theorem admits_through_iff (hmethods : (d.methods.map fun md => md.name.node).Nodup)
    (h : p.checked (.ofProgram p) = .ok a) (hd : d ∈ p.classes)
    (hcls : (SymbolTable.ofProgram p).class? d.name.node = some d.symbols)
    (hto : d.LowersTo (.ofProgram p) a.types u) :
    (∀ m ∈ u.methods, ∀ made ∈ Ir.calls m.code, made.Through d.name.node md.name.node →
        md.Admits (p.scopeOf d md) u (made.args.map Operand.ty) made.ty) ↔
      ∀ caller ∈ d.methods, ∀ n r m args, .call n r m args ∈ Stmt.callsAll caller.body →
        r.className? (p.scopeOf d caller) = some d.name.node → m.node = md.name.node →
        md.Admits (p.scopeOf d md) u (args.map (Expr.operandTy (p.scopeOf d caller) a.types))
          ((a.types.get? n.id).getD .void) := by
  obtain ⟨hids, hcheck⟩ := checked_ok_iff.1 h
  constructor
  · intro hcode caller hcaller n r m args he hcl hm
    have hmethod := ClassDecl.method?_symbols_of_mem hmethods hcaller
    have hnotes := Stmt.hold_callsAll (recorded_body hids hcheck hd hcls hcaller hmethod) _ he
    -- Every call in the source is made somewhere in the code, with the types that are read off it
    -- there.
    obtain ⟨m', hm', made, hmade, hmakes⟩ := hto.exists_call hcls hcaller hmethod he
    obtain ⟨hname, hargs, hty⟩ := hmakes.types_eq hnotes
    obtain ⟨hkind, htarget⟩ := hmakes.static_iff.2 hcl
    have hadmits := hcode m' hm' made hmade ⟨hkind, htarget, hname.trans hm⟩
    rw [hargs, hty] at hadmits
    exact hadmits
  · intro hsource m hm made hmade hthrough
    -- And every call in the code comes from one in the source.
    obtain ⟨caller, hcaller, method, hmethod, e, he, hmakes⟩ := hto.exists_source hcls hm hmade
    obtain rfl : caller.symbols = method :=
      Option.some.inj ((ClassDecl.method?_symbols_of_mem hmethods hcaller).symm.trans hmethod)
    have hnotes := Stmt.hold_callsAll (recorded_body hids hcheck hd hcls hcaller hmethod) e he
    obtain ⟨n, r, m', args, rfl⟩ := hmakes.exists_call
    obtain ⟨hname, hargs, hty⟩ := hmakes.types_eq hnotes
    obtain ⟨hkind, htarget, hcalled⟩ := hthrough
    rw [hargs, hty]
    exact hsource caller hcaller n r m' args he (hmakes.static_iff.1 ⟨hkind, htarget⟩)
      (hname.symm.trans hcalled)

end Program

namespace Assembly

/-! ## Calls in the text -/

def Asm.isInvoke : Asm → Bool
  | .invoke .. => true
  | _ => false

/-- The calls in a block of code. -/
def invokes (code : List Asm) : List Asm := code.filter Asm.isInvoke

theorem invokes_append (a b : List Asm) : invokes (a ++ b) = invokes a ++ invokes b :=
  List.filter_append ..

theorem invokes_of_loads {code : List Asm} (h : ∀ a ∈ code, a.isLoad = true) :
    invokes code = [] := by
  rw [invokes, List.filter_eq_nil_iff]
  intro a ha hcall
  have hload := h a ha
  cases a with
  | invoke => cases hload
  | _ => cases hcall

@[simp] theorem invokes_store (ty : Ty) (r : UInt16) : invokes [.store ty r] = [] := by
  rw [Asm.store]
  split <;> rfl

@[simp] theorem invokes_storeItem (ty : Ty) : invokes [.storeItem ty] = [] := by
  rw [Asm.storeItem]
  split <;> rfl

namespace Frame

variable {f : Frame} {n n' : Nat} {code : List Asm}

theorem call_invokes {kind : CallKind} {target : Operand} {method : String} {args : List Operand}
    {params : Option (List Ty)} {ty : Ty}
    (h : f.call kind target method args params ty = .ok code) :
    invokes code = [invocation f.unit f.method kind target method
      (params.getD (args.map Operand.ty)) ty] := by
  obtain ⟨loads, hloads, rfl⟩ := call_loads h
  rw [invokes_append, invokes_of_loads hloads]
  rfl

/-- The block of an instruction that makes a call has this call and no other. -/
theorem instr_invokes {i : Instr} {made : Call} (hmade : i.made? = some made)
    (h : (f.instr i).run n = ⟨.ok (), n', code⟩) :
    invokes code = [invocation f.unit f.method made.kind made.target made.method
      (made.params.getD (made.args.map Operand.ty)) made.ty] := by
  rcases Instr.cases_of_made? hmade with rfl | ⟨dest, ty, rfl⟩
  · obtain ⟨k, hcall, -, rfl⟩ := instr_call_ok h
    have hend : invokes (if made.ty = .void then [] else [.pop]) = [] := by
      split <;> rfl
    rw [invokes_append, call_invokes hcall, hend, List.append_nil]
  · cases dest with
    | var x t p =>
      obtain ⟨k, reg, hvalue, -, rfl⟩ := assign_var_ok h
      rw [invokes_append, call_invokes (value_call_ok hvalue).1, invokes_store, List.append_nil]
    | item x index t p =>
      obtain ⟨reg, k₁, k₂, -, hpush, hvalue, rfl⟩ := assign_item_ok h
      show invokes (k₁ ++ (k₂ ++ [.storeItem ty])) = _
      rw [invokes_append, invokes_append, invokes_of_loads (push_loads hpush),
        call_invokes (value_call_ok hvalue).1, invokes_storeItem, List.append_nil, List.nil_append]
    | literal | cls => exact absurd h Stage.fail_ne_ok

end Frame

/-- A call on the class of the unit goes to that class. -/
theorem calledClass_self {u : ClassUnit} {m : Method} {kind : CallKind} {target : Operand}
    (hkind : kind ≠ .special) (htarget : target.ty = .cls u.name) :
    calledClass u m kind target = u.name := by
  simp [calledClass, hkind, htarget, ClassUnit.runtimeName]

/-- A call on the class of the unit is one of its code, and is emitted with the types that it has
there. -/
theorem EmittedAll.own_call {u : ClassUnit} {n n' : Nat} {codes : List (List (List Asm))}
    (h : EmittedAll u u.emissionOrder n codes n') {i : Instr} {k : List Asm} {made : Call}
    (hblock : Piece.block i k ∈ listings u.emissionOrder codes) (hmade : i.made? = some made)
    (hkind : made.kind ≠ .special) (htarget : made.target.ty = .cls u.name) :
    (∃ m ∈ u.methods, made ∈ Ir.calls m.code) ∧
      invokes k = [.invoke made.kind u.name made.method
        ((made.params.getD (made.args.map Operand.ty)).map u.descriptor)
          (u.descriptor made.ty)] := by
  obtain ⟨m, hm, hi, n₁, n₂, hinstr⟩ := h.of_block_mem hblock
  refine ⟨⟨m, mem_emissionOrder.1 hm, List.mem_filterMap.2 ⟨i, hi, hmade⟩⟩, ?_⟩
  rw [Frame.instr_invokes hmade hinstr, invocation]
  simp only [Frame.of, calledClass_self hkind htarget]

variable {p : Program} {a : Annotation} {c : Counters} {units : List ClassUnit}

/-- A call of a method that the class declares, on an object of the class, has a heading in the
text. -/
theorem EmittedAll.own_object_call (h : p.checked (.ofProgram p) = .ok a) {d : ClassDecl}
    (hd : d ∈ p.classes) {u : ClassUnit} (hdname : d.name.node = u.name)
    (hto : d.LowersTo (.ofProgram p) a.types u)
    (hcls : (SymbolTable.ofProgram p).class? d.name.node = some d.symbols) {n n' : Nat}
    {codes : List (List (List Asm))} (hemitted : EmittedAll u u.emissionOrder n codes n')
    {i : Instr} {k : List Asm} {made : Call} {md : MethodDecl}
    (hblock : Piece.block i k ∈ listings u.emissionOrder codes) (hmade : i.made? = some made)
    (hkind : made.kind = .virtual) (htarget : made.target.ty = .cls u.name) (hmd : md ∈ d.methods)
    (hname : md.name.node = made.method) :
    ∃ callee, Piece.heading callee ∈ listings u.emissionOrder codes ∧
      made.Fits (p.scopeOf d md) callee ∧
      invokes k = [.invoke .virtual u.name callee.name
        (callee.params.map fun q => u.descriptor q.ty) (u.descriptor callee.returnTy)] := by
  obtain ⟨⟨m, hm, hcall⟩, hinvokes⟩ := hemitted.own_call hblock hmade (by simp [hkind]) htarget
  rw [← hdname] at htarget
  obtain ⟨callee, hcallee, hfits⟩ :=
    Program.fits_of_own_object h hd hcls hto hm hcall hkind htarget hmd hname
  refine ⟨callee, hemitted.heading_mem (mem_emissionOrder.2 hcallee), hfits, ?_⟩
  rw [hinvokes, hkind, hfits.name, hfits.params, hfits.result, Option.getD_some, List.map_map]
  rfl

/-- **Calls on objects of the class link.** Let the class names of a program be different, and let
the program be accepted with its own table and lowered. Wherever the text of a class calls a method
that the class declares, on an object of the class, a heading in the same text has the name and the
descriptor of the call, and the arguments are as many as the parameters and assignable to them,
class names apart. -/
theorem own_object_calls_link (hclasses : (p.classes.map fun d => d.name.node).Nodup)
    (h : p.checked (.ofProgram p) = .ok a)
    (hlow : ((p.lower (.ofProgram p) a.types).run c).result = .ok units) :
    ∀ u ∈ units, ∃ d ∈ p.classes, d.name.node = u.name ∧
      ∀ e : Emitter, e.unit = u → e.text = none → ∃ codes,
        e.build.result = .ok (classText u e.limits (listings u.emissionOrder codes)) ∧
        List.Forall₂ (fun m code => code.length = m.code.length) u.emissionOrder codes ∧
        ∀ i k made md, Piece.block i k ∈ listings u.emissionOrder codes → i.made? = some made →
          made.kind = .virtual → made.target.ty = .cls u.name →
          md ∈ d.methods → md.name.node = made.method →
          ∃ callee, Piece.heading callee ∈ listings u.emissionOrder codes ∧
            made.Fits (p.scopeOf d md) callee ∧
            invokes k = [.invoke .virtual u.name callee.name
              (callee.params.map fun q => u.descriptor q.ty) (u.descriptor callee.returnTy)] := by
  intro u hu
  obtain ⟨d, hd, hdname, hto, hcls⟩ := Program.exists_class hclasses hlow hu
  refine ⟨d, hd, hdname, ?_⟩
  intro e he hnew
  subst he
  obtain ⟨codes, n, hemitted, htext⟩ := Emitter.build_of_lower h hlow hu hnew
  refine ⟨codes, htext, hemitted.lengths, ?_⟩
  intro i k made md hblock hmade hkind htarget hmd hname
  exact hemitted.own_object_call h hd hdname hto hcls hblock hmade hkind htarget hmd hname

/-! A method that passes an object of the class on as one of the superclass. -/

namespace Dock

/-- `Base keep(Base b, int n) { return this.keep(this, n); }`. -/
def keep : MethodDecl where
  name := { node := "keep" }
  returnTy := { node := .cls "Base" }
  params := [⟨{ node := "b" }, { node := .cls "Base" }⟩, ⟨{ node := "n" }, { node := .int }⟩]
  body := [.ret .unknown (some (.call { id := 0 } (.this { id := 1 }) { node := "keep" }
    [.this { id := 2 }, .var { id := 3 } "n"]))]

def dock : ClassDecl where
  name := { node := "Dock" }
  superName := some { node := "Base" }
  methods := [keep]

def program : Program where
  classes := [dock]

/-- The call in the body. -/
def again : Ir.Call :=
  ⟨.virtual, .this "Dock", "keep", [.this "Dock", .var "n" .int none], some [.cls "Base", .int],
    .cls "Base"⟩

theorem keep_links : ∃ a u codes i k callee, program.checked (.ofProgram program) = .ok a ∧
    ((program.lower (.ofProgram program) a.types).run {}).result = .ok [u] ∧
    emit u {} = .ok (classText u {} (listings u.emissionOrder codes)) ∧
    Piece.block i k ∈ listings u.emissionOrder codes ∧ i.made? = some again ∧
    Piece.heading callee ∈ listings u.emissionOrder codes ∧
    again.Fits (program.scopeOf dock keep) callee ∧
    invokes k = [.invoke .virtual "Dock" callee.name
      (callee.params.map fun q => u.descriptor q.ty) (u.descriptor callee.returnTy)] := by
  have hchecked : program.checked (.ofProgram program) =
      .ok (program.annotate (.ofProgram program)) :=
    Program.checked_ok_iff.2 ⟨Program.uniqueIds_iff_nodup.2 (by decide), rfl⟩
  have hlow : ∃ u, ((program.lower (.ofProgram program)
      (program.annotate (.ofProgram program)).types).run {}).result = .ok [u] ∧ u.name = "Dock" ∧
      ∃ m ∈ u.emissionOrder, ∃ i ∈ m.code, i.made? = some again :=
    ⟨_, rfl, rfl, _, .tail _ (.head _), _, .head _, rfl⟩
  obtain ⟨u, hunits, hname, m, hm, i, hi, hmade⟩ := hlow
  obtain ⟨d, hd, -, htexts⟩ := own_object_calls_link (by decide) hchecked hunits u (.head _)
  obtain rfl : d = dock := List.mem_singleton.1 hd
  obtain ⟨codes, htext, hlengths, hlinks⟩ := htexts { unit := u } rfl rfl
  obtain ⟨k, hblock⟩ := exists_block hlengths hm hi
  obtain ⟨callee, hheading, hfits, hinvokes⟩ :=
    hlinks i k again keep hblock hmade rfl (by rw [hname]; rfl) (.head _) rfl
  rw [hname] at hinvokes
  exact ⟨_, u, codes, i, k, callee, hchecked, hunits, htext, hblock, hmade, hheading,
    hfits, hinvokes⟩

end Dock

/-- **When calls through the name of the class agree.** Let the class names of a program and the
method names of each class be different, and let the program be accepted with its own table and
lowered. All calls of a method through the name of its class agree with the declaration exactly if
in the program the method is static and all those calls have arguments that are assignable to the
parameters and a type that is the declared one. They are emitted with the declared parameter types
if the number of arguments is right and else with those of the arguments, and with the result that
the annotation gives. -/
theorem own_static_calls_agree_iff (hclasses : (p.classes.map fun d => d.name.node).Nodup)
    (hmethods : ∀ d ∈ p.classes, (d.methods.map fun md => md.name.node).Nodup)
    (h : p.checked (.ofProgram p) = .ok a)
    (hlow : ((p.lower (.ofProgram p) a.types).run c).result = .ok units) :
    ∀ u ∈ units, ∃ d ∈ p.classes, d.name.node = u.name ∧ ∀ md ∈ d.methods,
      ((∀ m ∈ u.methods, ∀ made ∈ Ir.calls m.code, made.Through d.name.node md.name.node →
          md.Admits (p.scopeOf d md) u (made.args.map Operand.ty) made.ty) ↔
        ∀ caller ∈ d.methods, ∀ n r m args, .call n r m args ∈ Stmt.callsAll caller.body →
          r.className? (p.scopeOf d caller) = some d.name.node → m.node = md.name.node →
          md.Admits (p.scopeOf d md) u (args.map (Expr.operandTy (p.scopeOf d caller) a.types))
            ((a.types.get? n.id).getD .void)) ∧
      ∀ e : Emitter, e.unit = u → e.text = none → ∃ codes,
        e.build.result = .ok (classText u e.limits (listings u.emissionOrder codes)) ∧
        List.Forall₂ (fun m code => code.length = m.code.length) u.emissionOrder codes ∧
        ∀ i k made, Piece.block i k ∈ listings u.emissionOrder codes → i.made? = some made →
          made.Through d.name.node md.name.node →
          invokes k = [.invoke .static u.name md.name.node
            ((if md.params.length = made.args.length then md.params.map fun q => q.ty.node
              else made.args.map Operand.ty).map u.descriptor) (u.descriptor made.ty)] := by
  intro u hu
  obtain ⟨d, hd, hdname, hto, hcls⟩ := Program.exists_class hclasses hlow hu
  refine ⟨d, hd, hdname, ?_⟩
  intro md hmd
  refine ⟨Program.admits_through_iff (hmethods d hd) h hd hcls hto, ?_⟩
  intro e he hnew
  subst he
  obtain ⟨codes, n, hemitted, htext⟩ := Emitter.build_of_lower h hlow hu hnew
  refine ⟨codes, htext, hemitted.lengths, ?_⟩
  intro i k made hblock hmade ⟨hkind, htarget, hname⟩
  -- A class as a target has the type of the class, so the declared parameters are looked up for
  -- such a call as well.
  have htarget' : made.target.ty = .cls d.name.node := by rw [htarget]; rfl
  obtain ⟨⟨m, hm, hcall⟩, hinvokes⟩ :=
    hemitted.own_call hblock hmade (by simp [hkind]) (by rw [htarget', hdname])
  obtain ⟨caller, hcaller, method, hmethod, e', he', hmakes⟩ := hto.exists_source hcls hm hcall
  have hsig := ClassDecl.method?_symbols_of_mem (hmethods d hd) hmd
  rw [← hname] at hsig
  rw [hinvokes, hkind, hname, hmakes.passed_eq htarget' hsig]

/-! A call through the name of the class whose value nothing wants. It is annotated with no type, so
that it is emitted with the result `V`, and the heading of the method has `I`. -/

namespace Lamp

/-- `static int level() { return 1; }`. -/
def level : MethodDecl where
  name := { node := "level" }
  isStatic := true
  returnTy := { node := .int }
  body := [.ret .unknown (some (.int { id := 0 } 1))]

/-- `static void report() { Lamp.level(); }`. -/
def report : MethodDecl where
  name := { node := "report" }
  isStatic := true
  returnTy := { node := .void }
  body := [.expr .unknown (.call { id := 1 } (.var { id := 2 } "Lamp") { node := "level" } [])]

def lamp : ClassDecl where
  name := { node := "Lamp" }
  methods := [level, report]

def program : Program where
  classes := [lamp]

/-- The call in the body of `report`. -/
def reading : Ir.Call := ⟨.static, .cls "Lamp", "level", [], some [], .void⟩

theorem reading_disagrees : ∃ a u codes i k, program.checked (.ofProgram program) = .ok a ∧
    ((program.lower (.ofProgram program) a.types).run {}).result = .ok [u] ∧
    ¬(∀ m ∈ u.methods, ∀ made ∈ Ir.calls m.code, made.Through "Lamp" "level" →
      level.Admits (program.scopeOf lamp level) u (made.args.map Operand.ty) made.ty) ∧
    emit u {} = .ok (classText u {} (listings u.emissionOrder codes)) ∧
    Piece.block i k ∈ listings u.emissionOrder codes ∧ i.made? = some reading ∧
    invokes k = [.invoke .static "Lamp" "level" [] .void] ∧
      u.descriptor level.returnTy.node = .int := by
  have hchecked : program.checked (.ofProgram program) =
      .ok (program.annotate (.ofProgram program)) :=
    Program.checked_ok_iff.2 ⟨Program.uniqueIds_iff_nodup.2 (by decide), rfl⟩
  have hlow : ∃ u, ((program.lower (.ofProgram program)
      (program.annotate (.ofProgram program)).types).run {}).result = .ok [u] ∧ u.name = "Lamp" ∧
      ∃ m ∈ u.emissionOrder, ∃ i ∈ m.code, i.made? = some reading :=
    ⟨_, rfl, rfl, _, .tail _ (.tail _ (.head _)), _, .head _, rfl⟩
  obtain ⟨u, hunits, hname, m, hm, i, hi, hmade⟩ := hlow
  obtain ⟨d, hd, -, hstatic⟩ :=
    own_static_calls_agree_iff (by decide) (by decide) hchecked hunits u (.head _)
  obtain rfl : d = lamp := List.mem_singleton.1 hd
  obtain ⟨hagree, htexts⟩ := hstatic level (.head _)
  obtain ⟨codes, htext, hlengths, hinvoked⟩ := htexts { unit := u } rfl rfl
  obtain ⟨k, hblock⟩ := exists_block hlengths hm hi
  have hinvokes := hinvoked i k reading hblock hmade ⟨rfl, rfl, rfl⟩
  rw [hname] at hinvokes
  refine ⟨_, u, codes, i, k, hchecked, hunits, ?_, htext, hblock, hmade, hinvokes, rfl⟩
  intro hall
  -- The call stands alone, so the annotation has no type for it.
  have hadmits := hagree.1 hall report (.tail _ (.head _)) _ _ _ _ (.head _) rfl rfl
  exact nomatch hadmits.result

end Lamp

end Assembly

end MiniJava
