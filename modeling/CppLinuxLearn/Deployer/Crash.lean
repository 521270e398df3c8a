import CppLinuxLearn.Deployer.Boundary

/-!
# What a message can break

The handling of a message that has the frames its command takes for granted can still go wrong in
three ways: an assertion on the size of a frame fails, more bytes are copied from a frame than it has,
or the table names are indexed with an element type there is no name for. `MessageSized` says of the
sizes and the element type that none of them happens; `unharmed_iff` is the equivalence.
-/

namespace CppLinuxLearn.Deployer

open Lib Multipart

/-- No index outside `AllTableNames` is among the faults that `s'` has more than `s`. -/
def NoneOutside (s s' : Service) : Prop :=
  ∃ fs, s'.faults = s.faults ++ fs ∧ ∀ c, Fault.tableIndex c ∉ fs

/-- The program has not failed an assertion, not copied more from a frame than it has and not indexed
`AllTableNames` outside its bounds. -/
structure Unharmed (p : Proc Service) (r : Outcome Service Unit) : Prop where
  asserts : ∀ p', r ≠ .error .aborted p'
  frames : (final r).sock.overreads = p.sock.overreads
  table : NoneOutside p.own (final r).own

/-! ## The sizes a command takes for granted -/

/-- There is no frame more, or the next one has `P`. -/
def NextFrame (P : Bytes → Prop) : List Bytes → Prop
  | [] => True
  | f :: _ => P f

/-- `TInsert`, `TDelete` and `TUpdate`: two numbers and elements, none of them shorter than the
structure of its type. -/
def ObjectsSized (env : Env) : List Bytes → Prop
  | reqid :: eletype :: fs =>
    reqid.length = Pod.size CInt ∧ eletype.length = Pod.size CInt ∧
      ∀ t, EElementType.ofInt? (podAt env CInt eletype) = some t →
        ∀ f ∈ fs, Pod.size t.Struct ≤ f.length
  | _ => False

/-- `TQuery` and `TDelByCol`: two numbers, the second of them an element type. -/
def FiltersSized (env : Env) : List Bytes → Prop
  | reqid :: eletype :: _ =>
    reqid.length = Pod.size CInt ∧ eletype.length = Pod.size CInt ∧
      (EElementType.ofInt? (podAt env CInt eletype)).isSome
  | _ => False

/-- The frames behind the command have the sizes and the element type that `onRecvCmd` relies on. -/
def CommandSized (env : Env) (cmd : CInt) (fs : List Bytes) : Prop :=
  match ECommandType.ofInt? cmd with
  | some .TLogin | some .TLogout => NextFrame (fun f => f.length = Pod.size CInt) fs
  | some .TQuery | some .TDelByCol => FiltersSized env fs
  | some .TInsert | some .TDelete | some .TUpdate => ObjectsSized env fs
  | _ => True

/-- The command frame is no shorter than a command, and what follows it has the right sizes: for a
message that is rejected, the request id that is read with or without an assertion. -/
def MessageSized (env : Env) (s : Service) (m : Msg) : Prop :=
  match m.rest with
  | strIdentity :: cmdFrame :: fs =>
    Pod.size CInt ≤ cmdFrame.length ∧
      match verdict s m.head strIdentity (podAt env CInt cmdFrame) with
      | .identifyErr => NextFrame (fun f => Pod.size CInt ≤ f.length) fs
      | .noLogin | .multiLogin => NextFrame (fun f => f.length = Pod.size CInt) fs
      | .accepted => CommandSized env (podAt env CInt cmdFrame) fs
  | _ => False

/-! ## Reading -/

theorem overread_eq_nil {T : Type} [Pod T] {f : Bytes} : overread T f = [] ↔ Pod.size T ≤ f.length := by
  rw [overread]
  split
  · rename_i hlt
    exact iff_of_false (List.cons_ne_nil _ _) (Nat.not_le.2 hlt)
  · rename_i hle
    exact iff_of_true rfl (Nat.not_lt.1 hle)

section
variable {σ : Type} (env : Env) (s : σ) (f : Bytes) (fs : List Bytes) (q : List Msg)
  (o : List (Bytes × Nat))

theorem ends_recvPodObject_bind {T α : Type} [Pod T] {P : α → σ → Prop} (g : T → Rd σ α) :
    Ends P o ((recvPodObject env T >>= g).run ⟨s, ⟨f :: fs, q, o⟩⟩) ↔
      f.length = Pod.size T ∧ Ends P o ((g (podAt env T f)).run ⟨s, ⟨fs, q, o⟩⟩) := by
  rw [EStateM.run_bind]
  by_cases hf : f.length = Pod.size T
  · rw [run_recvPodObject env T s f fs q o hf]
    exact (and_iff_right hf).symm
  · rw [run_recvPodObject_aborts env T s f fs q o hf]
    exact iff_of_false id fun h => hf h.1

theorem ends_recvVecObject {T : Type} [Pod T] {P : List T → σ → Prop} (hP : ∀ ts, P ts s) :
    Ends P o ((recvVecObject env T).run ⟨s, ⟨fs, q, o⟩⟩) ↔ ∀ f ∈ fs, Pod.size T ≤ f.length := by
  have hover : o ++ fs.flatMap (overread T) = o ↔ ∀ f ∈ fs, Pod.size T ≤ f.length := by
    rw [List.append_right_eq_self, List.flatMap_eq_nil_iff]
    simp only [overread_eq_nil]
  rw [run_recvVecObject, Ends, and_iff_right (hP _)]
  exact hover

/-- The element type of a statement has a table. -/
def InTable : Request → Prop
  | .query _ eletype _ | .delByCol _ eletype _ => (EElementType.ofInt? eletype).isSome
  | _ => True

theorem ends_recvFiltered {mk : CInt → CInt → List ColumnFilter → Request}
    (hmk : ∀ reqid eletype cs,
      InTable (mk reqid eletype cs) ↔ (EElementType.ofInt? eletype).isSome = true)
    (hfit : FiltersFit fs) :
    Ends (fun req _ => InTable req) o ((recvFiltered env mk).run ⟨s, ⟨fs, q, o⟩⟩) ↔
      FiltersSized env fs := by
  unfold recvFiltered
  match fs, hfit with
  | [reqid], hfit =>
    rw [ends_recvPodObject_bind]
    exact iff_of_false (fun h => hfit h.1) id
  | reqid :: eletype :: fs, hfit =>
    rw [ends_recvPodObject_bind, ends_recvPodObject_bind, FiltersSized]
    refine and_congr_right fun hid => and_congr_right fun htype => ?_
    have heven := hfit hid htype
    obtain ⟨ps, rfl | ⟨f, rfl⟩⟩ := exists_pairs fs
    · rw [ends_bind_pure, recvColumnFilters, run_whileMore_pairs, Ends, hmk]
      exact and_iff_left rfl
    · rw [List.length_append, length_flatMap_pair, List.length_singleton] at heven
      exact absurd heven (Nat.not_even_two_mul_add_one _)

theorem ends_recvElements (op : DbOp) (reqid eletype : CInt) :
    Ends (fun req _ => InTable req) o ((recvElements env op reqid eletype).run ⟨s, ⟨fs, q, o⟩⟩) ↔
      ∀ t, EElementType.ofInt? eletype = some t → ∀ f ∈ fs, Pod.size t.Struct ≤ f.length := by
  unfold recvElements
  split
  · rename_i t ht
    rw [ends_bind_pure, ends_recvVecObject env s fs q o fun _ => trivial, ht]
    exact ⟨fun h u hu => Option.some.inj hu ▸ h, fun h => h t rfl⟩
  · rename_i hnone
    rw [ends_bind_pure, run_skipRemainMFrame, hnone]
    exact iff_of_true ⟨trivial, rfl⟩ nofun

theorem ends_recvObjects (op : DbOp) (hfit : ObjectsFit fs) :
    Ends (fun req _ => InTable req) o ((recvObjects env op).run ⟨s, ⟨fs, q, o⟩⟩) ↔
      ObjectsSized env fs := by
  unfold recvObjects
  match fs, hfit with
  | [reqid], hfit =>
    rw [ends_recvPodObject_bind]
    exact iff_of_false (fun h => hfit h.1 rfl) id
  | reqid :: eletype :: fs, _ =>
    rw [ends_recvPodObject_bind, ends_recvPodObject_bind, ends_recvElements, ObjectsSized]

theorem ends_login {mk : CInt → Request} (hmk : ∀ reqid, InTable (mk reqid)) (hfit : fs ≠ []) :
    Ends (fun req _ => InTable req) o ((do return mk (← recvPodObject env CInt)).run ⟨s, ⟨fs, q, o⟩⟩) ↔
      NextFrame (fun f => f.length = Pod.size CInt) fs := by
  obtain ⟨f, fs, rfl⟩ := List.exists_cons_of_ne_nil hfit
  rw [ends_recvPodObject_bind]
  exact and_iff_left ⟨hmk _, rfl⟩

/-- The frames of a command that fits are read, and its element type has a table, exactly if they have
the sizes. -/
theorem ends_recvCmd {cmd : CInt} (hfit : CommandFits cmd fs) :
    Ends (fun req _ => InTable req) o ((recvCmd env cmd).run ⟨s, ⟨fs, q, o⟩⟩) ↔
      CommandSized env cmd fs := by
  have hskip : Ends (fun req _ => InTable req) o
      ((do skipRemainMFrame; return Request.skipped).run ⟨s, ⟨fs, q, o⟩⟩) := by
    rw [ends_bind_pure, run_skipRemainMFrame]
    exact ⟨trivial, rfl⟩
  unfold recvCmd CommandSized
  unfold CommandFits at hfit
  match ECommandType.ofInt? cmd, hfit with
  | some .TLogin, hfit | some .TLogout, hfit => exact ends_login env s fs q o (fun _ => trivial) hfit
  | some .TQuery, hfit | some .TDelByCol, hfit =>
    exact ends_recvFiltered env s fs q o (fun _ _ _ => Iff.rfl) hfit
  | some .TInsert, hfit | some .TDelete, hfit | some .TUpdate, hfit =>
    exact ends_recvObjects env s fs q o _ hfit
  | some .TKeepAlive, _ => exact iff_of_true ⟨trivial, rfl⟩ trivial
  | some .TDeploy, _ | some .TExecute, _ | some .TFinish, _ | some .TNullCmd, _ | none, _ =>
    exact iff_of_true hskip trivial

end

/-! ## Handling -/

section
variable (env : Env) (s : Service) (fs : List Bytes) (q : List Msg) (o : List (Bytes × Nat))

theorem noneOutside_of_eq {s s' : Service} (h : s'.faults = s.faults) : NoneOutside s s' :=
  ⟨[], by rw [h, List.append_nil], fun _ => List.not_mem_nil⟩

theorem tableIndex_mem_sqlFaults {verb : String} {beyond : CInt → Str} {eletype c : CInt}
    {fs : List ColumnFilter} :
    Fault.tableIndex c ∈ sqlFaults verb beyond eletype fs ↔
      c = eletype ∧ ¬ eletype.toNat < AllTableNames.length := by
  rw [sqlFaults, List.mem_append]
  refine (or_iff_left ?_).trans ?_
  · rintro h
    obtain ⟨t, -, ht⟩ := List.mem_map.1 h
    cases ht
  · split
    · rename_i hlt
      exact iff_of_false List.not_mem_nil fun h => h.2 hlt
    · rename_i hge
      rw [List.mem_singleton, Fault.tableIndex.injEq]
      exact (and_iff_left hge).symm

theorem toNat_lt_tables (eletype : CInt) :
    eletype.toNat < AllTableNames.length ↔ (EElementType.ofInt? eletype).isSome = true := by
  constructor
  · intro hlt
    have heq : eletype = BitVec.ofNat 32 eletype.toNat := by rw [BitVec.ofNat_toNat, BitVec.setWidth_eq]
    have hlt : eletype.toNat < 5 := hlt
    rw [heq]
    interval_cases eletype.toNat <;> rfl
  · intro h
    obtain ⟨t, ht⟩ := Option.isSome_iff_exists.1 h
    rw [EElementType.ofInt?_eq_some ht]
    cases t <;> decide

theorem noneOutside_submitSql {s₁ : Service} (c : DispatcherClient) (verb : String)
    (mk : EElementType → TaskOp) (reqid eletype : CInt) (fs : List ColumnFilter)
    (h : s₁.faults = s.faults) :
    NoneOutside s (submitSql env c verb mk reqid eletype fs s₁) ↔
      (EElementType.ofInt? eletype).isSome = true := by
  have hfaults : (submitSql env c verb mk reqid eletype fs s₁).faults =
      s.faults ++ sqlFaults verb env.beyond eletype fs := by
    rw [submitSql, ← h]
    cases EElementType.ofInt? eletype <;> rfl
  rw [← toNat_lt_tables, NoneOutside, hfaults]
  constructor
  · rintro ⟨gs, heq, hnone⟩
    obtain rfl := List.append_cancel_left heq
    by_contra hge
    exact hnone eletype (tableIndex_mem_sqlFaults.2 ⟨rfl, hge⟩)
  · exact fun hlt => ⟨_, rfl, fun c hc => (tableIndex_mem_sqlFaults.1 hc).2 hlt⟩

theorem noneOutside_handleCmd {s₁ : Service} (c : DispatcherClient) (req : Request)
    (h : s₁.faults = s.faults) : NoneOutside s (handleCmd env c req s₁) ↔ InTable req := by
  cases req with
  | query reqid eletype fs => exact noneOutside_submitSql env s c _ _ reqid eletype fs h
  | delByCol reqid eletype fs => exact noneOutside_submitSql env s c _ _ reqid eletype fs h
  | login reqid =>
    refine iff_of_true (noneOutside_of_eq (.trans ?_ h)) trivial
    rw [handleCmd, onReqLogin]
    split <;> rfl
  | byObjects op reqid t objVec =>
    refine iff_of_true (noneOutside_of_eq (.trans ?_ h)) trivial
    rw [handleCmd]
    split <;> rfl
  | _ => exact iff_of_true (noneOutside_of_eq h) trivial

theorem ends_onRecvCmd {s₁ : Service} {cmd : CInt} {c : DispatcherClient} (h : s₁.faults = s.faults)
    (hfit : CommandFits cmd fs) :
    Ends (fun _ s' => NoneOutside s s') o ((onRecvCmd env cmd c).run ⟨s₁, ⟨fs, q, o⟩⟩) ↔
      CommandSized env cmd fs := by
  rw [← ends_recvCmd env (s₁.logEvent (.reached c.strIdentify c.strRouter cmd)) fs q o hfit,
    onRecvCmd, EStateM.run_bind, run_modifyOwn]
  refine (ends_bind_modifyOwn _).trans ?_
  rw [ends_of_sameOwn (along_recvCmd sameOwn_readOrder env cmd)]
  have hlogged : ∀ e e', ((s₁.logEvent e).logEvent e').faults = s.faults := fun _ _ => h
  simp only [noneOutside_handleCmd env s c _ (hlogged _ _)]

theorem ends_rejectLogin {s₁ : Service} {err : EResponseErrType} {msg : String} {r : Str} {cmd : CInt}
    (h : s₁.faults = s.faults) :
    Ends (fun _ s' => NoneOutside s s') o ((rejectLogin env err msg r cmd).run ⟨s₁, ⟨fs, q, o⟩⟩) ↔
      NextFrame (fun f => f.length = Pod.size CInt) fs := by
  have hnone : ∀ rsp, NoneOutside s (s₁.answer r rsp) := fun rsp => noneOutside_of_eq h
  unfold rejectLogin
  rw [ends_bind_modifyOwn]
  cases fs with
  | nil => exact iff_of_true ⟨hnone _, rfl⟩ trivial
  | cons f fs =>
    have hrun : (recvReqidIfMore env).run ⟨s₁, ⟨f :: fs, q, o⟩⟩ =
        (recvPodObject env CInt >>= pure).run ⟨s₁, ⟨f :: fs, q, o⟩⟩ := by
      rw [bind_pure]
      rfl
    rw [hrun, ends_recvPodObject_bind]
    exact and_iff_left ⟨hnone _, rfl⟩

theorem ends_rejectIdentity {r : Str} {cmd : CInt} :
    Ends (fun _ s' => NoneOutside s s') o ((rejectIdentity env r cmd).run ⟨s, ⟨fs, q, o⟩⟩) ↔
      NextFrame (fun f => Pod.size CInt ≤ f.length) fs := by
  have hnone : ∀ rsp, NoneOutside s (s.answer r rsp) := fun rsp => noneOutside_of_eq rfl
  unfold rejectIdentity
  rw [ends_bind_modifyOwn]
  cases fs with
  | nil => exact iff_of_true ⟨hnone _, rfl⟩ trivial
  | cons f fs =>
    have hrun : (recvRequestidIfMore env).run ⟨s, ⟨f :: fs, q, o⟩⟩ =
        .ok (podAt env CInt f) ⟨s, ⟨fs, q, o ++ overread CInt f⟩⟩ := run_copyPod env CInt s f fs q o
    rw [hrun, Ends, and_iff_right (hnone _), NextFrame, ← overread_eq_nil]
    exact List.append_right_eq_self

theorem ends_dispatch {r u : Str} {cmd : CInt}
    (hfit : verdict s r u cmd = .accepted → CommandFits cmd fs) :
    Ends (fun _ s' => NoneOutside s s') o ((dispatch env r u cmd).run ⟨s, ⟨fs, q, o⟩⟩) ↔
      match verdict s r u cmd with
      | .identifyErr => NextFrame (fun f => Pod.size CInt ≤ f.length) fs
      | .noLogin | .multiLogin => NextFrame (fun f => f.length = Pod.size CInt) fs
      | .accepted => CommandSized env cmd fs := by
  have hfind : (findClient env u s).faults = s.faults := by
    unfold findClient
    split <;> rfl
  rw [run_dispatch]
  cases hv : verdict s r u cmd with
  | identifyErr => exact ends_rejectIdentity env s fs q o
  | noLogin => exact ends_rejectLogin env s fs q o hfind
  | multiLogin => exact ends_rejectLogin env s fs q o hfind
  | accepted =>
    obtain ⟨c, -, hrun⟩ := run_acceptCmd env r u cmd s ⟨fs, q, o⟩
    simp only [hrun]
    exact ends_onRecvCmd env s fs q o hfind (hfit hv)

/-- A copy that is too long is not taken back. -/
def Logged (p p' : Proc Service) : Prop := p.sock.overreads <+: p'.sock.overreads

theorem logged_readOrder : ReadOrder Logged where
  refl _ := List.prefix_rfl
  trans h₁ h₂ := h₁.trans h₂
  recv := by
    rintro ⟨s, cur, next, o⟩
    cases cur <;> cases next <;> exact List.prefix_rfl
  copyOut past f n p := by
    simp only [Logged, copyOut, final, EStateM.run]
    split
    · exact List.prefix_append _ _
    · exact List.prefix_rfl

theorem logged_dispatch (r u : Str) (cmd : CInt) : Along Logged (dispatch env r u cmd) := by
  have hR := logged_readOrder
  have hown : ∀ g : Service → Service, Along Logged (modifyOwn g) := fun _ _ => List.prefix_rfl
  have hreject : ∀ err msg, Along Logged (rejectLogin env err msg r cmd) := fun err msg =>
    along_bind hR (along_recvReqidIfMore env hR) fun _ => hown _
  have hcmd : ∀ c, Along Logged (onRecvCmd env cmd c) := fun c =>
    along_bind hR (hown _) fun _ => along_bind hR (along_recvCmd hR env cmd) fun _ => hown _
  rintro ⟨s, k⟩
  rw [run_dispatch]
  cases verdict s r u cmd with
  | identifyErr => exact along_bind hR (along_recvRequestidIfMore env hR) (fun _ => hown _) ⟨s, k⟩
  | noLogin => exact hreject _ _ ⟨findClient env u s, k⟩
  | multiLogin => exact hreject _ _ ⟨findClient env u s, k⟩
  | accepted =>
    obtain ⟨c, -, hrun⟩ := run_acceptCmd env r u cmd s k
    simp only [hrun]
    exact hcmd _ ⟨touchClient env r u (findClient env u s), k⟩

theorem unharmed_iff_ends {p : Proc Service} {r : Outcome Service Unit} (hw : Within q r) :
    Unharmed p r ↔ Ends (fun _ s' => NoneOutside p.own s') p.sock.overreads r := by
  cases r with
  | ok u t => exact ⟨fun h => ⟨h.table, h.frames⟩, fun h => ⟨nofun, h.2, h.1⟩⟩
  | error e t =>
    cases e with
    | blocked => exact hw.elim
    | aborted => exact iff_of_false (fun h => h.asserts t rfl) id

theorem ends_bind_skipRemainMFrame {P : Unit → Service → Prop} {x : Rd Service Unit} (p : Proc Service) :
    Ends P o ((x >>= fun _ => skipRemainMFrame).run p) ↔ Ends P o (x.run p) := by
  rw [EStateM.run_bind]
  cases x.run p with
  | error e t => rfl
  | ok u t =>
    obtain ⟨s, fs, next, o'⟩ := t
    simp only [run_skipRemainMFrame, Ends]

/-- **A message that has the frames its command needs breaks nothing exactly if its frames have the
sizes, and its element type the name, that the handling relies on**, whatever the state it meets. -/
theorem unharmed_iff {m : Msg} (hfit : MessageFits env s m) :
    Unharmed ⟨s, ⟨[], m :: q, o⟩⟩ ((onReadable env).run ⟨s, ⟨[], m :: q, o⟩⟩) ↔
      MessageSized env s m := by
  have hR := logged_readOrder
  rw [unharmed_iff_ends q ((within_onReadable env s q o m).2 hfit)]
  obtain ⟨r, rest⟩ := m
  unfold MessageSized
  match rest, hfit with
  | u :: cmdFrame :: fs, hfit =>
    rw [run_onReadable_dispatch]
    refine (ends_bind_skipRemainMFrame o (x := dispatch env r u _) ⟨s, ⟨fs, q, _⟩⟩).trans ?_
    rcases Nat.lt_or_ge cmdFrame.length (Pod.size CInt) with hlt | hle
    · refine iff_of_false (fun h => ?_) fun h => Nat.not_le.2 hlt h.1
      have hlogged := logged_dispatch env r u (podAt env CInt cmdFrame)
        ⟨s, ⟨fs, q, o ++ overread CInt cmdFrame⟩⟩
      have hover : overread CInt cmdFrame = [(cmdFrame, Pod.size CInt)] := if_pos hlt
      cases hr : (dispatch env r u (podAt env CInt cmdFrame)).run
          ⟨s, ⟨fs, q, o ++ overread CInt cmdFrame⟩⟩ with
      | error e t =>
        rw [hr] at h
        exact h
      | ok a t =>
        rw [hr] at h hlogged
        have hlen := hlogged.length_le
        simp only [final, h.2, hover, List.length_append, List.length_singleton] at hlen
        omega
    · rw [overread_eq_nil.2 hle, List.append_nil]
      exact (ends_dispatch env s fs q o hfit).trans (and_iff_right hle).symm

/-- A manager that is logged in. -/
def amyKnown : Service :=
  { Service.init default with
    setManagerCache := [text "amy"]
    mapClients := [(text "amy", ⟨text "r", text "amy", 0, 0, true⟩)] }

/-- `amy` asks for the servers. -/
def askForServers : Msg :=
  ⟨text "r", [text "amy", bytes ECommandType.TQuery.toInt, bytes (7 : CInt),
    bytes EElementType.TServerConfig.toInt]⟩

theorem askForServers_fits : MessageFits default amyKnown askForServers := by
  intro _
  rw [podAt_bytes]
  exact fun _ _ => ⟨0, rfl⟩

theorem unharmed_iff_askForServers :
    Unharmed ⟨amyKnown, ⟨[], [askForServers], []⟩⟩
        ((onReadable default).run ⟨amyKnown, ⟨[], [askForServers], []⟩⟩) ↔
      MessageSized default amyKnown askForServers :=
  unharmed_iff default amyKnown [] [] askForServers_fits

/-- `amy` asks for the rows of the sixth of five tables. -/
def askForSixth : Msg :=
  ⟨text "r", [text "amy", bytes ECommandType.TQuery.toInt, bytes (7 : CInt), bytes (5 : CInt)]⟩

theorem askForSixth_harms :
    amyKnown.identifyUser (text "amy") = true ∧
      ((amyKnown.client? (text "amy")).any fun c => c.bLogin && c.strRouter = text "r") = true ∧
      MessageFits default amyKnown askForSixth ∧
      ¬ Unharmed ⟨amyKnown, ⟨[], [askForSixth], []⟩⟩
        ((onReadable default).run ⟨amyKnown, ⟨[], [askForSixth], []⟩⟩) := by
  refine ⟨by decide, by decide, fun _ => ?_, fun h => ?_⟩
  · rw [podAt_bytes]
    exact fun _ _ => ⟨0, rfl⟩
  · obtain ⟨fs, hfs, hnone⟩ := h.table
    have hfaults : (final ((onReadable default).run
        ⟨amyKnown, ⟨[], [askForSixth], []⟩⟩)).own.faults = [.tableIndex 5] := by decide +kernel
    have hmem : Fault.tableIndex 5 ∈ amyKnown.faults ++ fs := by
      rw [← hfs, hfaults]
      exact List.mem_singleton_self _
    exact hnone 5 hmem

end

end CppLinuxLearn.Deployer
