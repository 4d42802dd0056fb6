import ScriptAst.Proofs.Functions.Collect
import ScriptAst.Proofs.Limit

/-! # Scopes and their history

What scopes answer can be told from the calls that were made on them.  A frame is known by the
number of calls before its push, so it is never mistaken for one that is pushed later, and the calls
made while it was innermost are its own.  The names that were declared by its own calls are the
names it declares, in order of their first declaration, and the functions are those declared last.

`History.scopes_eq` says that the scopes are just this, frame by frame.  It is an induction on the
history; that no call but an own one changes a frame is the case of each call.
-/
namespace ScriptAst

/-! ## Calls -/

/-- A call on scopes. -/
inductive Call where
  | push
  | pop
  | declareVar (name : String)
  | declareFunc (name : String) (function : Node)
  | resolve (name : String)

/-- What a call answers. -/
inductive Reply where
  | pushed
  | popped (frame : Option Frame)
  | declared (isOpen : Bool)
  | resolved (depth : Option Nat)

namespace Call

/-- The answer to the call, and the scopes behind it. -/
def run : Call → Scopes → Reply × Scopes
  | push, scopes => (.pushed, scopes.push)
  | pop, scopes => (.popped scopes.pop.1, scopes.pop.2)
  | declareVar name, scopes =>
    (.declared (scopes.declareVar name).1, (scopes.declareVar name).2)
  | declareFunc name function, scopes =>
    (.declared (scopes.declareFunc name function).1, (scopes.declareFunc name function).2)
  | resolve name, scopes => (.resolved (scopes.resolve name), scopes)

/-- The variable that the call declares, if it declares one. -/
def var? : Call → Option String
  | declareVar name => some name
  | _ => none

/-- The function that the call declares, if it declares one. -/
def func? : Call → Option (String × Node)
  | declareFunc name function => some (name, function)
  | _ => none

theorem var?_eq_some_iff {call : Call} {name : String} :
    call.var? = some name ↔ call = declareVar name := by
  cases call <;> simp [var?]

/-- A call leaves all frames alone but the innermost. -/
theorem tail_suffix_run (call : Call) (scopes : Scopes) :
    scopes.tail <:+ (call.run scopes).2 := by
  cases scopes with
  | nil => exact List.nil_suffix
  | cons frame outer =>
    cases call with
    | push => exact (List.suffix_cons frame outer).trans (List.suffix_cons _ _)
    | pop => exact List.suffix_rfl
    | declareVar | declareFunc | resolve => exact List.suffix_cons _ _

end Call

/-- What the innermost frame is after the call, as far as it is still open. -/
def Frame.after (frame : Frame) : Call → Frame
  | .declareVar name => { frame with vars := addName name frame.vars }
  | .declareFunc name function => { frame with funcs := bindName name function frame.funcs }
  | .push | .pop | .resolve _ => frame

/-! ## What a history tells -/

/-- The calls made on new scopes, the latest first. -/
abbrev History := List Call

namespace History

/-- The scopes after the calls. -/
def scopes : History → Scopes
  | [] => []
  | call :: earlier => (call.run (scopes earlier)).2

/-- The frames that are open after the calls, the innermost first.  A frame is known by the number
of calls before its push. -/
def openFrames : History → List Nat
  | [] => []
  | .push :: earlier => earlier.length :: openFrames earlier
  | .pop :: earlier => (openFrames earlier).tail
  | .declareVar _ :: earlier | .declareFunc _ _ :: earlier | .resolve _ :: earlier =>
    openFrames earlier

/-- The calls made while the frame was innermost, in the order in which they were made. -/
def ownCalls (frame : Nat) : History → List Call
  | [] => []
  | call :: earlier =>
    if (openFrames earlier).head? = some frame then ownCalls frame earlier ++ [call]
    else ownCalls frame earlier

variable (history : History) (frame : Nat)

/-- The frame is a binder of the name: it was declared while the frame was innermost. -/
def Binds (name : String) : Prop := Call.declareVar name ∈ history.ownCalls frame

/-- The variables declared in the frame, as often as they were. -/
def varCalls : List String := (history.ownCalls frame).filterMap Call.var?

/-- The functions declared in the frame, as often as they were. -/
def funcCalls : List (String × Node) := (history.ownCalls frame).filterMap Call.func?

/-- The frame as its own calls leave it. -/
def contents : Frame := ⟨(history.varCalls frame).eraseDups, bindAll (history.funcCalls frame) []⟩

/-! ## Frames are told apart -/

variable {history frame}

theorem lt_length_of_mem_openFrames (h : frame ∈ history.openFrames) : frame < history.length := by
  induction history with
  | nil => exact nomatch h
  | cons call earlier ih =>
    cases call with
    | push =>
      rcases List.mem_cons.mp h with rfl | h
      · exact Nat.lt_succ_self _
      · exact Nat.lt_succ_of_lt (ih h)
    | pop => exact Nat.lt_succ_of_lt (ih (List.mem_of_mem_tail h))
    | declareVar | declareFunc | resolve => exact Nat.lt_succ_of_lt (ih h)

theorem nodup_openFrames (history : History) : history.openFrames.Nodup := by
  induction history with
  | nil => exact List.nodup_nil
  | cons call earlier ih =>
    cases call with
    | push =>
      refine List.nodup_cons.mpr ⟨fun hmem => ?_, ih⟩
      exact Nat.lt_irrefl _ (lt_length_of_mem_openFrames hmem)
    | pop => exact ih.tail
    | declareVar | declareFunc | resolve => exact ih

/-- A frame that has not been pushed yet has no calls of its own. -/
theorem ownCalls_eq_nil (h : history.length ≤ frame) : history.ownCalls frame = [] := by
  induction history with
  | nil => rfl
  | cons call earlier ih =>
    have hearlier : earlier.length ≤ frame := Nat.le_of_succ_le h
    have hnew : (openFrames earlier).head? ≠ some frame := fun hhead =>
      Nat.not_lt_of_le hearlier (lt_length_of_mem_openFrames (List.mem_of_mem_head? hhead))
    rw [ownCalls, if_neg hnew, ih hearlier]

/-! ## What a call changes -/

variable {call : Call} {earlier : History}

theorem contents_cons_innermost (h : earlier.openFrames.head? = some frame) :
    contents (call :: earlier) frame = (contents earlier frame).after call := by
  have hown : ownCalls frame (call :: earlier) = ownCalls frame earlier ++ [call] := by
    rw [ownCalls, if_pos h]
  simp only [contents, varCalls, funcCalls, hown, List.filterMap_append]
  cases call with
  | declareVar name =>
    -- The name goes behind those declared before, unless it is among them.
    simp only [List.filterMap_cons, List.filterMap_nil, Call.var?, Call.func?, List.append_nil,
      eraseDups_concat]
    rfl
  | declareFunc name function =>
    simp only [List.filterMap_cons, List.filterMap_nil, Call.var?, Call.func?, List.append_nil,
      bindAll_append]
    rfl
  | push | pop | resolve =>
    simp only [List.filterMap_cons, List.filterMap_nil, Call.var?, Call.func?, List.append_nil]
    rfl

/-- The other frames are as before. -/
theorem contents_cons_of_ne (h : earlier.openFrames.head? ≠ some frame) :
    contents (call :: earlier) frame = contents earlier frame := by
  simp only [contents, varCalls, funcCalls, ownCalls, if_neg h]

/-- A call that declares nothing leaves all frames as before. -/
theorem contents_cons (h : ∀ frame : Frame, frame.after call = frame) (earlier : History) :
    contents (call :: earlier) = contents earlier := by
  funext frame
  by_cases hhead : earlier.openFrames.head? = some frame
  · rw [contents_cons_innermost hhead, h]
  · exact contents_cons_of_ne hhead

/-- Where `frame` is the innermost frame, the others are as before. -/
theorem map_contents_cons {outer : List Nat} (h : earlier.openFrames = frame :: outer) :
    outer.map (contents (call :: earlier)) = outer.map (contents earlier) := by
  have hnodup := nodup_openFrames earlier
  rw [h] at hnodup
  refine List.map_congr_left fun other hmem => contents_cons_of_ne ?_
  rw [h, List.head?_cons]
  rintro ⟨⟩
  exact (List.nodup_cons.mp hnodup).1 hmem

/-! ## Scopes are what their history tells -/

/-- **The scopes are the open frames**, each as its own calls leave it. -/
theorem scopes_eq (history : History) :
    history.scopes = history.openFrames.map history.contents := by
  induction history with
  | nil => rfl
  | cons call earlier ih =>
    rw [scopes, ih]
    cases call with
    | push =>
      have hnew : contents (.push :: earlier) earlier.length = .empty := by
        rw [contents_cons fun _ => rfl, contents, varCalls, funcCalls,
          ownCalls_eq_nil (Nat.le_refl _)]
        rfl
      rw [openFrames, List.map_cons, hnew, contents_cons fun _ => rfl]
      rfl
    | pop =>
      rw [openFrames, contents_cons fun _ => rfl]
      cases openFrames earlier <;> rfl
    | resolve name =>
      rw [openFrames, contents_cons fun _ => rfl]
      rfl
    | declareVar | declareFunc =>
      rw [openFrames]
      cases hopen : openFrames earlier with
      | nil => rfl
      | cons frame outer =>
        have hhead : (openFrames earlier).head? = some frame := by rw [hopen, List.head?_cons]
        rw [List.map_cons, List.map_cons, contents_cons_innermost hhead, map_contents_cons hopen]
        rfl

/-! ## Look-ups -/

/-- The open frame with `depth` others further in binds the name, and none of these does. -/
def NearestBinder (history : History) (name : String) (depth : Nat) : Prop :=
  ∃ frame, history.openFrames[depth]? = some frame ∧ history.Binds frame name ∧
    ∀ nearer ∈ history.openFrames.take depth, ¬ history.Binds nearer name

theorem mem_varCalls {name : String} :
    name ∈ history.varCalls frame ↔ history.Binds frame name := by
  rw [varCalls, List.mem_filterMap, Binds]
  constructor
  · rintro ⟨call, hcall, hvar⟩
    exact Call.var?_eq_some_iff.mp hvar ▸ hcall
  · exact fun hcall => ⟨_, hcall, rfl⟩

theorem mem_vars_contents {name : String} :
    name ∈ (history.contents frame).vars ↔ history.Binds frame name := by
  rw [contents, List.mem_eraseDups, mem_varCalls]

theorem nearest_eq_none_iff {name : String} :
    history.scopes.nearest name = none ↔
      ∀ frame ∈ history.openFrames, ¬ history.Binds frame name := by
  rw [scopes_eq, Scopes.nearest, List.findIdx?_eq_none_iff, List.forall_mem_map]
  simp only [decide_eq_false_iff_not, mem_vars_contents]

theorem nearest_eq_some_iff {name : String} {depth : Nat} :
    history.scopes.nearest name = some depth ↔ history.NearestBinder name depth := by
  rw [scopes_eq, Scopes.nearest, List.findIdx?_map, List.findIdx?_eq_some_iff_getElem]
  simp only [Function.comp_apply, decide_eq_true_eq, mem_vars_contents]
  constructor
  · rintro ⟨hlt, hbinds, hnearer⟩
    refine ⟨_, List.getElem?_eq_getElem hlt, hbinds, fun nearer hmem => ?_⟩
    obtain ⟨i, hi, rfl⟩ := List.mem_take_iff_getElem.mp hmem
    exact hnearer i (Nat.lt_of_lt_of_le hi (Nat.min_le_left ..))
  · rintro ⟨frame, hframe, hbinds, hnearer⟩
    obtain ⟨hlt, rfl⟩ := List.getElem?_eq_some_iff.mp hframe
    refine ⟨hlt, hbinds, fun i hi => hnearer _ ?_⟩
    exact List.mem_take_iff_getElem.mpr ⟨i, Nat.lt_min.mpr ⟨hi, Nat.lt_trans hi hlt⟩, rfl⟩

/-! ## The harvest -/

theorem contents_keys (history : History) (frame : Nat) :
    (history.contents frame).funcs.map Prod.fst =
      ((history.funcCalls frame).map Prod.fst).eraseDups := by
  rw [contents, map_fst_bindAll]
  exact foldl_addName _ []

/-- Under a name stands the function that was declared last. -/
theorem lookup_bindAll_reverse (name : String) (entries : List (String × Node)) :
    (bindAll entries.reverse []).lookup name = entries.lookup name := by
  induction entries with
  | nil => rfl
  | cons entry entries ih =>
    obtain ⟨key, function⟩ := entry
    rw [List.reverse_cons, bindAll_append, bindAll, List.foldl_cons, List.foldl_nil,
      lookup_bindName, ih, List.lookup_cons]
    by_cases h : name = key
    · rw [if_pos h, beq_iff_eq.mpr h]
    · rw [if_neg h, beq_eq_false_iff_ne.mpr h]

theorem lookup_contents (history : History) (frame : Nat) (name : String) :
    (history.contents frame).funcs.lookup name =
      (history.funcCalls frame).reverse.lookup name := by
  have h := lookup_bindAll_reverse name (history.funcCalls frame).reverse
  rwa [List.reverse_reverse] at h

/-! ## Replies -/

/-- What a call answers after the others. -/
def reply (history : History) (call : Call) : Reply := (call.run history.scopes).1

theorem length_scopes (history : History) : history.scopes.length = history.openFrames.length := by
  rw [scopes_eq, List.length_map]

/-- A name is resolved to the nearest binder, as long as the frames can be counted in 32 bits. -/
theorem reply_resolve (h : history.openFrames.length < UInt32.size) (name : String) :
    history.reply (.resolve name) = .resolved (history.scopes.nearest name) := by
  have hlength : history.scopes.length ≤ UInt32.size := by
    rw [length_scopes]
    exact Nat.le_of_lt h
  rw [reply, Call.run, Scopes.resolve_eq_nearest name hlength]

theorem reply_pop {outer : List Nat} (h : history.openFrames = frame :: outer) :
    history.reply .pop = .popped (some (history.contents frame)) := by
  rw [reply, scopes_eq, h]
  rfl

end History

open History

/-- **Scopes answer as their history says.**  A name is resolved to the nearest open frame that has
declared it as a variable while it was innermost, and to none if there is no such frame.  A frame
that is popped gives the variables declared in it, each once, in order of first declaration, and the
functions with their names in this order and the last declaration under each.  Without an open frame
declarations and pops say so and change nothing.  No call changes a frame but the innermost, and a
push or a look-up changes none. -/
theorem scopes_refine_history (history : History) :
    (history.openFrames.length < UInt32.size → ∀ name,
      (∀ depth, history.reply (.resolve name) = .resolved (some depth) ↔
        history.NearestBinder name depth) ∧
      (history.reply (.resolve name) = .resolved none ↔
        ∀ frame ∈ history.openFrames, ¬ history.Binds frame name)) ∧
    (∀ frame outer, history.openFrames = frame :: outer →
      (∃ harvest, history.reply .pop = .popped (some harvest) ∧
        harvest.vars = (history.varCalls frame).eraseDups ∧
        harvest.funcs.map Prod.fst = ((history.funcCalls frame).map Prod.fst).eraseDups ∧
        ∀ name, harvest.funcs.lookup name = (history.funcCalls frame).reverse.lookup name) ∧
      (∀ name, history.reply (.declareVar name) = .declared true) ∧
      ∀ name function, history.reply (.declareFunc name function) = .declared true) ∧
    (history.openFrames = [] →
      Call.pop.run history.scopes = (.popped none, history.scopes) ∧
      (∀ name, (Call.declareVar name).run history.scopes = (.declared false, history.scopes)) ∧
      ∀ name function,
        (Call.declareFunc name function).run history.scopes = (.declared false, history.scopes)) ∧
    history.scopes.length = history.openFrames.length ∧
    (∀ call : Call, history.scopes.tail <:+ (call.run history.scopes).2) ∧
    Call.push.run history.scopes = (.pushed, .empty :: history.scopes) ∧
    ∀ name, ((Call.resolve name).run history.scopes).2 = history.scopes := by
  refine ⟨fun hfew name => ?_, fun frame outer hopen => ?_, fun hnone => ?_,
    length_scopes history, fun call => call.tail_suffix_run history.scopes, rfl, fun _ => rfl⟩
  · rw [reply_resolve hfew, ← nearest_eq_none_iff]
    refine ⟨fun depth => ?_, by rw [Reply.resolved.injEq]⟩
    rw [Reply.resolved.injEq, nearest_eq_some_iff]
  · have hscopes : history.scopes = history.contents frame :: outer.map history.contents := by
      rw [scopes_eq, hopen, List.map_cons]
    refine ⟨⟨_, reply_pop hopen, rfl, contents_keys history frame, lookup_contents history frame⟩,
      fun name => ?_, fun name function => ?_⟩
    all_goals rw [reply, hscopes]; rfl
  · have hscopes : history.scopes = [] := by rw [scopes_eq, hnone, List.map_nil]
    rw [hscopes]
    exact ⟨rfl, fun _ => rfl, fun _ _ => rfl⟩

/-- Something to declare on the given line. -/
def emptyOnLine (line : UInt32) : Node := ⟨⟨line, 0, 8⟩, .empty⟩

/-- A frame that declares a variable and a function twice.  In it a frame is popped, and one is open
that declares the variable again. -/
def shadowingHistory : History :=
  [.declareVar "b", .push, .pop, .declareVar "x", .push, .declareFunc "f" (emptyOnLine 3),
    .declareFunc "g" (emptyOnLine 2), .declareFunc "f" (emptyOnLine 1), .declareVar "b",
    .declareVar "a", .declareVar "b", .push]

theorem scopes_refine_history_shadowing :
    shadowingHistory.openFrames = [10, 0] ∧
    shadowingHistory.reply (.resolve "b") = .resolved (some 0) ∧
    shadowingHistory.reply (.resolve "a") = .resolved (some 1) ∧
    shadowingHistory.reply (.resolve "x") = .resolved none ∧
    (∃ harvest, History.reply (.pop :: shadowingHistory) .pop = .popped (some harvest) ∧
      harvest.vars = ["b", "a"] ∧ harvest.funcs.map Prod.fst = ["f", "g"] ∧
      harvest.funcs.lookup "f" = some (emptyOnLine 3)) ∧
    Call.pop.run (History.scopes (.pop :: .pop :: shadowingHistory)) = (.popped none, []) := by
  have hopen : shadowingHistory.openFrames = [10, 0] := rfl
  have hinner (name : String) : shadowingHistory.Binds 10 name ↔ name ∈ ["b"] := mem_varCalls.symm
  have houter (name : String) : shadowingHistory.Binds 0 name ↔ name ∈ ["b", "a", "b"] :=
    mem_varCalls.symm
  have hfew : shadowingHistory.openFrames.length < UInt32.size := by decide
  obtain ⟨hresolve, _⟩ := scopes_refine_history shadowingHistory
  obtain ⟨_, hpop, _⟩ := scopes_refine_history (.pop :: shadowingHistory)
  obtain ⟨_, _, hclosed, _⟩ := scopes_refine_history (.pop :: .pop :: shadowingHistory)
  obtain ⟨harvest, hreply, hvars, hkeys, hfuncs⟩ := (hpop 0 [] rfl).1
  refine ⟨hopen, ?_, ?_, ?_, ⟨harvest, hreply, hvars, hkeys, hfuncs "f"⟩, (hclosed rfl).1⟩
  · exact ((hresolve hfew "b").1 0).mpr ⟨10, rfl, (hinner "b").mpr (by decide), nofun⟩
  · refine ((hresolve hfew "a").1 1).mpr ⟨0, rfl, (houter "a").mpr (by decide), ?_⟩
    simp [hopen, hinner]
  · refine (hresolve hfew "x").2.mpr ?_
    simp [hopen, hinner, houter]

end ScriptAst
