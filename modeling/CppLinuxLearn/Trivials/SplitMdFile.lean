import CppLinuxLearn.Lib.Block
import CppLinuxLearn.Lib.Steps

/-!
# Splitting a file of market data

`splitMdFile.cpp`: the parent reads a csv file line by line and writes each line, behind its length, to the
pipe of its instrument; a child that is forked with the first line of an instrument opens its file, reads the
pipe and writes the file. The pipes carry everything that is written, in order, also to a child that has
returned, where the parent would get a signal. Which file a path opens, if any, is up to the file system
(`opens`); children that open the same file write over each other.
-/

namespace CppLinuxLearn.Trivials

open Lib Steps

def newline : UInt8 := 0x0a

/-- `splitString(srcstr, delimiter)` for a delimiter of one character. -/
def splitString (srcstr : Bytes) (delimiter : UInt8) : List Bytes := srcstr.splitOn delimiter

/-- `spltStrs[0]` -/
def strIns (line : Bytes) : Bytes := (splitString line 0x2c).headD []

/-- What `getline` gives one after the other; the last line is where `eof` is found. -/
def getlines (ifs : Bytes) : List Bytes := ifs.splitOn newline

/-- The two `fixwrite` for a line. -/
def fixwrite (line : Bytes) : Bytes := bytes (BitVec.ofNat 32 line.length) ++ line

/-- The two `fixread` of a child, into `n` and `rbuf`; `none` as long as the bytes have not come. -/
def fixread (pipe : Bytes) : Option (Bytes × Bytes) :=
  if 4 ≤ pipe.length then
    let n := (ofBytes pipe : BitVec 32).toNat
    if 4 + n ≤ pipe.length then some ((pipe.drop 4).take n, pipe.drop (4 + n)) else none
  else none

/-- `std::string(rbuf).find_first_of("end") != std::string::npos` -/
def isEnd (rbuf : Bytes) : Bool := (cstr rbuf).any fun c => (text "end").contains c

/-- `(subDir + "/" + fileVec[0] + strIns + ".csv").c_str()` -/
def dstPath (argv1 strIns : Bytes) : Bytes :=
  let name := (splitString argv1 0x2e).headD []
  cstr (text "Split_" ++ name ++ text "/" ++ name ++ strIns ++ text ".csv")

/-- `write` at an offset, which may lie behind the end. -/
def writeAt (content : Bytes) (pos : Nat) (d : Bytes) : Bytes :=
  Block.overwrite (content ++ List.replicate (pos - content.length) 0) pos d

/-- Where a child is. -/
inductive Stage
  | forked
  /-- `dstFile` is open and empty -/
  | opened (dstFile : Nat)
  /-- in the loop, with the offset in `dstFile` -/
  | reading (dstFile pos : Nat)
  | returned
deriving DecidableEq

/-- A child and its pipe. -/
structure Child where
  /-- `line`, as it was when the child was forked -/
  line : Bytes
  /-- what the parent has written and the child has not read -/
  pipe : Bytes
  stage : Stage
deriving DecidableEq

/-- The parent writes a line to the pipe. -/
def Child.write (c : Child) (line : Bytes) : Child := { c with pipe := c.pipe ++ fixwrite line }

/-- The child has read `rbuf`. -/
def Child.handle (c : Child) (dstFile pos : Nat) (rbuf : Bytes) (files : Nat → Bytes) : Child × (Nat → Bytes) :=
  if rbuf = [] then (c, files)
  else if isEnd rbuf then ({ c with stage := .returned }, files)
  else ({ c with stage := .reading dstFile (pos + (c.line ++ [newline]).length) },
    Function.update files dstFile (writeAt (files dstFile) pos (c.line ++ [newline])))

/-- What a child does next, where its path opens the file `dst`; `none` if there is nothing to be read, or it
has returned. -/
def Child.step (dst : Option Nat) (csvHead : Bytes) (c : Child) (files : Nat → Bytes) :
    Option (Child × (Nat → Bytes)) :=
  match c.stage with
  | .forked =>
    match dst with
    | some f => some ({ c with stage := .opened f }, Function.update files f [])
    | none => some ({ c with stage := .returned }, files)
  | .opened f =>
    some ({ c with stage := .reading f (csvHead ++ [newline]).length },
      Function.update files f (writeAt (files f) 0 (csvHead ++ [newline])))
  | .reading f pos =>
    (fixread c.pipe).map fun (rbuf, pipe) => { c with pipe := pipe }.handle f pos rbuf files
  | .returned => none

/-- The parent and its children. -/
structure Splitter where
  csvHead : Bytes
  /-- the lines to come -/
  ifs : List Bytes
  /-- the end is written to every pipe -/
  stopped : Bool
  mapPipe : Bytes → Option Child
  /-- what is in the files -/
  files : Nat → Bytes

/-- The program when it has read the head line. -/
def Splitter.init (file : Bytes) (files : Nat → Bytes) : Splitter :=
  ⟨(getlines file).headD [], (getlines file).tail, false, fun _ => none, files⟩

inductive Action
  /-- the parent takes a line, or writes the end to every pipe -/
  | parent
  /-- the child of an instrument opens its file, or reads -/
  | child (strIns : Bytes)

namespace Splitter

/-- The body of the loop over the lines. -/
def takeLine (s : Splitter) (line : Bytes) : Bytes → Option Child :=
  if strIns line = [] then s.mapPipe
  else
    Function.update s.mapPipe (strIns line) <| some <|
      match s.mapPipe (strIns line) with
      | none => Child.write ⟨line, [], .forked⟩ line
      | some c => c.write line

variable (opens : Bytes → Option Nat) (argv1 : Bytes)

def step (s : Splitter) : Action → Option Splitter
  | .parent =>
    match s.ifs with
    | line :: ifs => some { s with ifs := ifs, mapPipe := s.takeLine line }
    | [] =>
      if s.stopped then none
      else some { s with stopped := true, mapPipe := fun k => (s.mapPipe k).map (·.write (text "end")) }
  | .child k =>
    match s.mapPipe k with
    | some c =>
      (c.step (opens (dstPath argv1 k)) s.csvHead s.files).map fun (c, files) =>
        { s with mapPipe := Function.update s.mapPipe k (some c), files := files }
    | none => none

/-- Every process has come to its end. -/
structure Ended (s : Splitter) : Prop where
  ifs : s.ifs = []
  stopped : s.stopped = true
  children : ∀ k c, s.mapPipe k = some c → c.stage = .returned

end Splitter

/-- The data lines of an instrument. -/
def dataLines (file : Bytes) (k : Bytes) : List Bytes := (getlines file).tail.filter fun line => strIns line = k

/-- Each line with its newline. -/
def unlines (lines : List Bytes) : Bytes := lines.flatMap fun line => line ++ [newline]

section
variable (opens : Bytes → Option Nat) (argv1 file : Bytes)

/-- The file of each instrument has the head line and the lines of the instrument, as they are in the input. -/
def SplitRight (s : Splitter) : Prop :=
  ∀ k ≠ [], dataLines file k ≠ [] → ∃ f, opens (dstPath argv1 k) = some f ∧
    s.files f = unlines ((getlines file).headD [] :: dataLines file k)

/-- The path of each instrument opens a file, and that of no other opens the same. -/
def OwnFiles : Prop :=
  ∀ k ≠ [], dataLines file k ≠ [] → ∃ f, opens (dstPath argv1 k) = some f ∧
    ∀ k' ≠ [], dataLines file k' ≠ [] → opens (dstPath argv1 k') = some f → k' = k

end

/-- No line is taken for the end, and all lines of an instrument are the same. -/
def Uniform (file : Bytes) : Prop :=
  ∀ line ∈ (getlines file).tail, strIns line ≠ [] →
    isEnd line = false ∧ ∀ line' ∈ (getlines file).tail, strIns line' = strIns line → line' = line

instance (file : Bytes) : Decidable (Uniform file) := inferInstanceAs (Decidable (∀ _ ∈ _, _ → _))

/-! ## Lines -/

theorem newline_not_mem_getlines (ifs : Bytes) : ∀ line ∈ getlines ifs, newline ∉ line := by
  induction ifs with
  | nil => exact List.forall_mem_singleton.2 (List.not_mem_nil)
  | cons b ifs ih =>
    rw [getlines, List.splitOn_cons_eq_if_modifyHead]
    split
    · exact List.forall_mem_cons.2 ⟨List.not_mem_nil, ih⟩
    next hb =>
      obtain ⟨line, lines, hlines⟩ := List.exists_cons_of_ne_nil (List.splitOn_ne_nil newline ifs)
      rw [getlines, hlines] at ih
      rw [hlines, List.modifyHead_cons]
      obtain ⟨hline, hrest⟩ := List.forall_mem_cons.1 ih
      refine List.forall_mem_cons.2 ⟨?_, hrest⟩
      rw [List.mem_cons, not_or]
      exact ⟨fun heq => hb (beq_iff_eq.2 heq.symm), hline⟩

theorem splitOn_unlines {lines : List Bytes} (h : ∀ line ∈ lines, newline ∉ line) :
    (unlines lines).splitOn newline = lines ++ [[]] := by
  induction lines with
  | nil => rfl
  | cons line lines ih =>
    obtain ⟨hline, hrest⟩ := List.forall_mem_cons.1 h
    have hcons : unlines (line :: lines) = line ++ newline :: unlines lines := by
      rw [unlines, List.flatMap_cons, List.append_assoc]
      rfl
    rw [hcons, List.splitOn_append_cons_self_of_not_mem hline, ih hrest, List.cons_append]

theorem unlines_inj {lines lines' : List Bytes} (h : ∀ line ∈ lines, newline ∉ line)
    (h' : ∀ line ∈ lines', newline ∉ line) (heq : unlines lines = unlines lines') : lines = lines' := by
  have hsplit := congrArg (List.splitOn newline) heq
  rw [splitOn_unlines h, splitOn_unlines h'] at hsplit
  exact List.append_cancel_right hsplit

/-! ## A pipe -/

theorem length_fixwrite (line : Bytes) : (fixwrite line).length = 4 + line.length := by
  have hsize : (bytes (BitVec.ofNat 32 line.length)).length = 4 := length_bytes _
  rw [fixwrite, List.length_append, hsize]

theorem fixread_fixwrite {line : Bytes} (h : line.length < 2 ^ 32) (rest : Bytes) :
    fixread (fixwrite line ++ rest) = some (line, rest) := by
  have hsize : (bytes (BitVec.ofNat 32 line.length)).length = 4 := length_bytes _
  have hn : (ofBytes (fixwrite line ++ rest) : BitVec 32).toNat = line.length := by
    rw [fixwrite, List.append_assoc, ofBytes_append, BitVec.toNat_ofNat, Nat.mod_eq_of_lt h]
  have hlen : (fixwrite line ++ rest).length = 4 + line.length + rest.length := by
    rw [List.length_append, length_fixwrite]
  have hdrop : (fixwrite line ++ rest).drop 4 = line ++ rest := by
    rw [fixwrite, List.append_assoc, List.drop_left' hsize]
  rw [fixread, if_pos (by omega), hn]
  simp only [hlen, ← List.drop_drop, hdrop, List.take_left, List.drop_left]
  exact if_pos (Nat.le_add_right _ _)

/-- What a child has written when it has read `n` lines. -/
def copies (csvHead line : Bytes) (n : Nat) : Bytes := unlines (csvHead :: List.replicate n line)

/-- How far a child is with the records of its pipe, the first of which it was forked with, and what it has written
to which file. -/
inductive Progress (dst : Option Nat) (csvHead line : Bytes) (records : List Bytes) :
    Child → Option (Nat × Bytes) → Prop
  | forked : Progress dst csvHead line records ⟨line, records.flatMap fixwrite, .forked⟩ none
  | unopened (hdst : dst = none) : Progress dst csvHead line records ⟨line, records.flatMap fixwrite, .returned⟩ none
  | opened (f : Nat) (hdst : dst = some f) :
    Progress dst csvHead line records ⟨line, records.flatMap fixwrite, .opened f⟩ (some (f, []))
  | reading (f : Nat) (hdst : dst = some f) (read unread : List Bytes) (hrec : records = read ++ unread)
      (hread : ∀ r ∈ read, isEnd r = false) :
    Progress dst csvHead line records
      ⟨line, unread.flatMap fixwrite, .reading f (copies csvHead line read.length).length⟩
      (some (f, copies csvHead line read.length))
  | returned (f : Nat) (hdst : dst = some f) (read : List Bytes) (last : Bytes) (unread : List Bytes)
      (hrec : records = read ++ last :: unread) (hread : ∀ r ∈ read, isEnd r = false) (hlast : isEnd last = true) :
    Progress dst csvHead line records ⟨line, unread.flatMap fixwrite, .returned⟩
      (some (f, copies csvHead line read.length))

/-- The files hold what was written. -/
def Holds (wrote : Option (Nat × Bytes)) (files : Nat → Bytes) : Prop := ∀ p ∈ wrote, files p.1 = p.2

theorem writeAt_length (content d : Bytes) : writeAt content content.length d = content ++ d := by
  have hdrop : content.drop (content.length + d.length) = [] := List.drop_eq_nil_of_le (by omega)
  rw [writeAt, Nat.sub_self, List.replicate_zero, List.append_nil, Block.overwrite, List.take_length, hdrop,
    List.append_nil]

theorem holds_update {f : Nat} {d : Bytes} {files : Nat → Bytes} : Holds (some (f, d)) (Function.update files f d) := by
  rintro p ⟨⟩
  exact Function.update_self ..

theorem unlines_concat (ls : List Bytes) (l : Bytes) : unlines (ls ++ [l]) = unlines ls ++ (l ++ [newline]) := by
  rw [unlines, unlines, List.flatMap_append]
  simp

theorem copies_zero (csvHead line : Bytes) : copies csvHead line 0 = csvHead ++ [newline] := List.append_nil _

theorem copies_succ (csvHead line : Bytes) (n : Nat) :
    copies csvHead line (n + 1) = copies csvHead line n ++ (line ++ [newline]) := by
  rw [copies, copies, List.replicate_succ', ← List.cons_append, unlines_concat]

section
variable {dst : Option Nat} {csvHead line : Bytes} {records : List Bytes} {c : Child} {wrote : Option (Nat × Bytes)}

theorem Progress.dst_eq (h : Progress dst csvHead line records c wrote) {p : Nat × Bytes} (hp : p ∈ wrote) :
    dst = some p.1 := by
  cases h with
  | forked | unopened => cases hp
  | opened f hdst => cases hp; exact hdst
  | reading f hdst => cases hp; exact hdst
  | returned f hdst => cases hp; exact hdst

theorem Progress.write (h : Progress dst csvHead line records c wrote) (r : Bytes) :
    Progress dst csvHead line (records ++ [r]) (c.write r) wrote := by
  have hpipe : ∀ unread : List Bytes, unread.flatMap fixwrite ++ fixwrite r = (unread ++ [r]).flatMap fixwrite :=
    fun unread => by simp
  cases h with
  | forked =>
    rw [Child.write, hpipe]
    exact .forked
  | unopened hdst =>
    rw [Child.write, hpipe]
    exact .unopened hdst
  | opened f hdst =>
    rw [Child.write, hpipe]
    exact .opened f hdst
  | reading f hdst read unread hrec hread =>
    rw [Child.write, hpipe]
    exact .reading f hdst read (unread ++ [r]) (by rw [hrec, List.append_assoc]) hread
  | returned f hdst read last unread hrec hread hlast =>
    rw [Child.write, hpipe]
    exact .returned f hdst read last (unread ++ [r]) (by rw [hrec, List.append_assoc, List.cons_append]) hread hlast

/-- A child opens its file, writes the head, reads the next record and copies its line, or ends; it writes to no file but
its own. -/
theorem Progress.step (h : Progress dst csvHead line records c wrote)
    (hrecords : ∀ r ∈ records, r ≠ [] ∧ r.length < 512) {files files' : Nat → Bytes} {c' : Child}
    (hstep : c.step dst csvHead files = some (c', files')) :
    ∃ wrote', Progress dst csvHead line records c' wrote' ∧ (Holds wrote files → Holds wrote' files') ∧
      ∀ f, dst ≠ some f → files' f = files f := by
  cases h with
  | forked =>
    cases dst with
    | none =>
      obtain ⟨rfl, rfl⟩ := Prod.mk.inj (Option.some.inj hstep)
      exact ⟨none, .unopened rfl, id, fun _ _ => rfl⟩
    | some f =>
      obtain ⟨rfl, rfl⟩ := Prod.mk.inj (Option.some.inj hstep)
      refine ⟨_, .opened f rfl, fun _ => holds_update, fun g hg => Function.update_of_ne ?_ ..⟩
      exact fun heq => hg (congrArg some heq.symm)
  | unopened => cases hstep
  | opened f hdst =>
    obtain ⟨rfl, rfl⟩ := Prod.mk.inj (Option.some.inj hstep)
    refine ⟨some (f, copies csvHead line 0), ?_, fun hfiles => ?_, fun g hg => ?_⟩
    · rw [← copies_zero csvHead line]
      exact .reading f hdst [] records rfl (List.forall_mem_nil _)
    · have hempty : files f = [] := hfiles _ rfl
      have hat := writeAt_length [] (csvHead ++ [newline])
      rw [List.length_nil, List.nil_append] at hat
      rw [hempty, hat, copies_zero]
      exact holds_update
    · exact Function.update_of_ne (fun heq => hg (hdst.trans (congrArg some heq.symm))) ..
  | returned => cases hstep
  | reading f hdst read unread hrec hno =>
    cases unread with
    | nil => cases hstep
    | cons r unread =>
      obtain ⟨hne, hlt⟩ := hrecords r (hrec ▸ List.mem_append_right _ List.mem_cons_self)
      simp only [Child.step, List.flatMap_cons] at hstep
      rw [fixread_fixwrite (by omega), Option.map_some, Option.some_inj, Child.handle, if_neg hne] at hstep
      cases hend : isEnd r with
      | true =>
        rw [hend, if_pos rfl] at hstep
        obtain ⟨rfl, rfl⟩ := Prod.mk.inj hstep
        exact ⟨_, .returned f hdst read r unread hrec hno hend, id, fun _ _ => rfl⟩
      | false =>
        rw [hend, if_neg Bool.false_ne_true] at hstep
        obtain ⟨rfl, rfl⟩ := Prod.mk.inj hstep
        have hnext : copies csvHead line (read ++ [r]).length =
            copies csvHead line read.length ++ (line ++ [newline]) := by
          rw [List.length_append, List.length_singleton, copies_succ]
        have hoffset : (copies csvHead line read.length).length + (line ++ [newline]).length =
            (copies csvHead line (read ++ [r]).length).length :=
          List.length_append.symm.trans (congrArg List.length hnext.symm)
        refine ⟨some (f, copies csvHead line (read ++ [r]).length), ?_, fun hfiles => ?_, fun g hg => ?_⟩
        · simp only [hoffset]
          refine .reading f hdst (read ++ [r]) unread (by rw [hrec, List.append_assoc]; rfl) fun x hx => ?_
          rcases List.mem_append.1 hx with hx | hx
          · exact hno x hx
          · exact List.mem_singleton.1 hx ▸ hend
        · have hcontent : files f = copies csvHead line read.length := hfiles _ rfl
          rw [hcontent, writeAt_length, ← hnext]
          exact holds_update
        · exact Function.update_of_ne (fun heq => hg (hdst.trans (congrArg some heq.symm))) ..

end

/-! ## The parent and its children -/

/-- The lines of an instrument. -/
def linesOf (k : Bytes) (lines : List Bytes) : List Bytes := lines.filter fun line => strIns line = k

/-- The child of an instrument, when the given lines of the instrument have been written to its pipe. -/
inductive ChildOf (dst : Option Nat) (csvHead : Bytes) (stopped : Bool) (own : Prop) (files : Nat → Bytes) :
    List Bytes → Option Child → Prop
  | none : ChildOf dst csvHead stopped own files [] none
  | some {line : Bytes} {lines : List Bytes} {c : Child} {wrote : Option (Nat × Bytes)}
    (h : Progress dst csvHead line (line :: lines ++ if stopped then [text "end"] else []) c wrote)
    (hfiles : own → Holds wrote files) :
    ChildOf dst csvHead stopped own files (line :: lines) (some c)

/-- The parent has taken the lines `done`. -/
structure Inv (opens : Bytes → Option Nat) (argv1 file : Bytes) (done : List Bytes) (s : Splitter) : Prop where
  csvHead : s.csvHead = (getlines file).headD []
  lines : (getlines file).tail = done ++ s.ifs
  stopped : s.stopped = true → s.ifs = []
  noName : s.mapPipe [] = none
  children : ∀ k ≠ [], ChildOf (opens (dstPath argv1 k)) s.csvHead s.stopped (OwnFiles opens argv1 file) s.files
    (linesOf k done) (s.mapPipe k)

theorem linesOf_concat_self {k line : Bytes} (h : strIns line = k) (done : List Bytes) :
    linesOf k (done ++ [line]) = linesOf k done ++ [line] := by
  simp [linesOf, h]

theorem linesOf_concat_ne {k line : Bytes} (h : strIns line ≠ k) (done : List Bytes) :
    linesOf k (done ++ [line]) = linesOf k done := by
  simp [linesOf, h]

theorem record_fits {file : Bytes} (hlen : ∀ line ∈ (getlines file).tail, line.length < 512) {done ifs : List Bytes}
    (hlines : (getlines file).tail = done ++ ifs) {k : Bytes} (hk : k ≠ []) (stopped : Bool) :
    ∀ r ∈ linesOf k done ++ (if stopped then [text "end"] else []), r ≠ [] ∧ r.length < 512 := by
  intro r hr
  rcases List.mem_append.1 hr with hr | hr
  · obtain ⟨hmem, hins⟩ := List.mem_filter.1 hr
    refine ⟨?_, hlen r (hlines ▸ List.mem_append_left _ hmem)⟩
    rintro rfl
    exact hk (of_decide_eq_true hins).symm
  · split at hr
    · obtain rfl := List.mem_singleton.1 hr
      decide
    · cases hr

section
variable {opens : Bytes → Option Nat} {argv1 file : Bytes} {files : Nat → Bytes} {done : List Bytes} {s t : Splitter}

theorem inv_init : Inv opens argv1 file [] (.init file files) :=
  ⟨rfl, rfl, (fun h => by cases h), rfl, fun _ _ => .none⟩

theorem Inv.ne_nil (h : Inv opens argv1 file done s) {k : Bytes} {c : Child} (hc : s.mapPipe k = some c) : k ≠ [] := by
  rintro rfl
  rw [h.noName] at hc
  cases hc

theorem Inv.dataLines_ne_nil (h : Inv opens argv1 file done s) {k : Bytes} (hdone : linesOf k done ≠ []) :
    dataLines file k ≠ [] := by
  have hsplit : dataLines file k = linesOf k done ++ linesOf k s.ifs := by
    rw [dataLines, h.lines, List.filter_append]
    rfl
  rw [hsplit]
  exact List.append_ne_nil_of_left_ne_nil hdone _

theorem Inv.takeLine (h : Inv opens argv1 file done s) {line : Bytes} {ifs : List Bytes} (hifs : s.ifs = line :: ifs) :
    Inv opens argv1 file (done ++ [line]) { s with ifs := ifs, mapPipe := s.takeLine line } := by
  have hgoing : s.stopped = false := by
    cases hstop : s.stopped with
    | false => rfl
    | true =>
      rw [h.stopped hstop] at hifs
      cases hifs
  refine ⟨h.csvHead, by rw [h.lines, hifs, List.append_assoc]; rfl, fun hstop => ?_, ?_, fun k hk => ?_⟩
  · exact absurd (hgoing.symm.trans hstop) Bool.false_ne_true
  · change s.takeLine line [] = none
    rw [Splitter.takeLine]
    split
    next => exact h.noName
    next hins => rw [Function.update_of_ne (Ne.symm hins), h.noName]
  · have hchild := h.children k hk
    change ChildOf _ s.csvHead s.stopped _ s.files _ (s.takeLine line k)
    rw [hgoing] at hchild ⊢
    rw [Splitter.takeLine]
    by_cases hins : strIns line = k
    · rw [if_neg (hins.trans_ne hk), hins, Function.update_self, linesOf_concat_self hins]
      generalize linesOf k done = own at hchild
      generalize s.mapPipe k = oc at hchild
      cases hchild with
      | none =>
        have hnew : Progress (opens (dstPath argv1 k)) s.csvHead line [] ⟨line, [], .forked⟩ none := .forked
        exact .some (hnew.write line) fun _ => nofun
      | some hp hfiles => exact .some (by simpa using hp.write line) hfiles
    · rw [linesOf_concat_ne hins]
      split
      · exact hchild
      · rwa [Function.update_of_ne (Ne.symm hins)]

theorem Inv.stop (h : Inv opens argv1 file done s) (hifs : s.ifs = []) (hgoing : s.stopped = false) :
    Inv opens argv1 file done
      { s with stopped := true, mapPipe := fun k => (s.mapPipe k).map (·.write (text "end")) } := by
  refine ⟨h.csvHead, h.lines, fun _ => hifs, by simp only [h.noName, Option.map_none], fun k hk => ?_⟩
  have hchild := h.children k hk
  rw [hgoing] at hchild
  simp only
  generalize s.mapPipe k = oc at hchild
  generalize linesOf k done = own at hchild
  cases hchild with
  | none => exact .none
  | some hp hfiles => exact .some (by simpa using hp.write (text "end")) hfiles

theorem Inv.childStep (hlen : ∀ line ∈ (getlines file).tail, line.length < 512) (h : Inv opens argv1 file done s)
    {k : Bytes} {c c' : Child} (hc : s.mapPipe k = some c) {files' : Nat → Bytes}
    (hstep : c.step (opens (dstPath argv1 k)) s.csvHead s.files = some (c', files')) :
    Inv opens argv1 file done { s with mapPipe := Function.update s.mapPipe k (some c'), files := files' } := by
  have hk := h.ne_nil hc
  have hown := h.children k hk
  have hrecords := record_fits hlen h.lines hk s.stopped
  rw [hc] at hown
  have hname : linesOf k done ≠ [] := by
    intro hnil
    rw [hnil] at hown
    cases hown
  obtain ⟨hnext, hframe⟩ : ChildOf (opens (dstPath argv1 k)) s.csvHead s.stopped (OwnFiles opens argv1 file) files'
      (linesOf k done) (some c') ∧ ∀ f, opens (dstPath argv1 k) ≠ some f → files' f = s.files f := by
    generalize linesOf k done = own at hown hrecords
    cases hown with
    | some hp hfiles =>
      obtain ⟨wrote', hp', hholds, hframe⟩ := hp.step hrecords hstep
      exact ⟨.some hp' fun ho => hholds (hfiles ho), hframe⟩
  refine ⟨h.csvHead, h.lines, h.stopped, (Function.update_of_ne (Ne.symm hk) _ _).trans h.noName, fun k' hk' => ?_⟩
  by_cases heq : k' = k
  · subst heq
    simp only [Function.update_self]
    exact hnext
  · simp only [Function.update_of_ne heq]
    have hother := h.children k' hk'
    have hname' : linesOf k' done ≠ [] → dataLines file k' ≠ [] := h.dataLines_ne_nil
    generalize linesOf k' done = own' at hother hname'
    generalize s.mapPipe k' = oc at hother
    cases hother with
    | none => exact .none
    | some hp hfiles =>
      refine .some hp fun ho p hwrote => (hframe p.1 fun hsame => heq ?_).trans (hfiles ho p hwrote)
      obtain ⟨f, hf, hunique⟩ := ho k hk (h.dataLines_ne_nil hname)
      obtain rfl : f = p.1 := Option.some.inj (hf.symm.trans hsame)
      exact hunique k' hk' (hname' (List.cons_ne_nil _ _)) (hp.dst_eq hwrote)

theorem Inv.after (hlen : ∀ line ∈ (getlines file).tail, line.length < 512) (h : Inv opens argv1 file done s)
    {a : Action} (hs : s.step opens argv1 a = some t) : ∃ done', Inv opens argv1 file done' t := by
  cases a with
  | parent =>
    rw [Splitter.step] at hs
    split at hs
    next line ifs hifs =>
      obtain rfl := Option.some.inj hs
      exact ⟨_, h.takeLine hifs⟩
    next hifs =>
      obtain ⟨hgoing, hs⟩ := Option.ite_none_left_eq_some.1 hs
      obtain rfl := Option.some.inj hs
      exact ⟨_, h.stop hifs (by simpa using hgoing)⟩
  | child k =>
    rw [Splitter.step] at hs
    split at hs
    next c hc =>
      obtain ⟨⟨c', files'⟩, hstep, rfl⟩ := Option.map_eq_some_iff.1 hs
      exact ⟨_, h.childStep hlen hc hstep⟩
    next => cases hs

end

/-! ## The files -/

/-- What a child that opened its file leaves is right exactly if none of the lines is taken for the end and all are
the first. -/
theorem Progress.dstFile_eq_iff {dst : Option Nat} {csvHead line : Bytes} {lines : List Bytes} {c : Child}
    {p : Nat × Bytes} (hhead : newline ∉ csvHead) (hlines : ∀ l ∈ line :: lines, newline ∉ l)
    (h : Progress dst csvHead line (line :: lines ++ [text "end"]) c (some p)) (hrun : c.stage = .returned) :
    p.2 = unlines (csvHead :: line :: lines) ↔ ∀ l ∈ line :: lines, isEnd l = false ∧ l = line := by
  cases h with
  | opened | reading => cases hrun
  | returned f hdst read last unread hrec hread hlast =>
    have hlengths := congrArg List.length hrec
    rw [List.length_append, List.length_append, List.length_singleton, List.length_cons (a := last)] at hlengths
    simp only [copies]
    constructor
    · intro hfile
      have hcopies : ∀ l ∈ List.replicate read.length line, newline ∉ l := fun l hl =>
        List.eq_of_mem_replicate hl ▸ hlines line List.mem_cons_self
      have hsame := unlines_inj (List.forall_mem_cons.2 ⟨hhead, hcopies⟩) (List.forall_mem_cons.2 ⟨hhead, hlines⟩) hfile
      have hall : List.replicate read.length line = line :: lines := (List.cons.inj hsame).2
      have hcount : (line :: lines).length = read.length := by rw [← hall, List.length_replicate]
      have hown : line :: lines = read := List.append_inj_left hrec hcount
      exact fun l hl => ⟨hread l (hown ▸ hl), List.eq_of_mem_replicate (hall ▸ hl)⟩
    · intro hall
      have hle : (line :: lines).length ≤ read.length := by
        by_contra hlt
        rw [Nat.not_le] at hlt
        have hlastAt : (line :: lines ++ [text "end"])[read.length]? = some last := by
          rw [hrec, List.getElem?_append_right le_rfl, Nat.sub_self, List.getElem?_cons_zero]
        rw [List.getElem?_append_left hlt] at hlastAt
        have hno := (hall last (List.mem_of_getElem? hlastAt)).1
        rw [hlast] at hno
        cases hno
      have hcount : read.length = (line :: lines).length := by omega
      have hcopies : List.replicate read.length line = line :: lines :=
        (List.eq_replicate_iff.2 ⟨hcount.symm, fun l hl => (hall l hl).2⟩).symm
      rw [hcopies]

theorem newline_not_mem_head (file : Bytes) : newline ∉ (getlines file).headD [] := by
  have hnewline := newline_not_mem_getlines file
  obtain ⟨head, lines, hlines⟩ := List.exists_cons_of_ne_nil (List.splitOn_ne_nil newline file)
  rw [getlines, hlines] at hnewline ⊢
  exact hnewline head List.mem_cons_self

theorem mem_dataLines {file k l : Bytes} : l ∈ dataLines file k ↔ l ∈ (getlines file).tail ∧ strIns l = k := by
  simp [dataLines]

theorem newline_not_mem_dataLines {file k l : Bytes} (hl : l ∈ dataLines file k) : newline ∉ l :=
  newline_not_mem_getlines file l (List.mem_of_mem_tail (mem_dataLines.1 hl).1)

section
variable {opens : Bytes → Option Nat} {argv1 file : Bytes} {files : Nat → Bytes} {as : List Action} {t : Splitter}

theorem inv_run (hlen : ∀ line ∈ (getlines file).tail, line.length < 512)
    (hrun : run (Splitter.step opens argv1) (.init file files) as = some t) : ∃ done, Inv opens argv1 file done t :=
  run_invariant (I := fun s => ∃ done, Inv opens argv1 file done s) (fun _ _ _ ⟨_, h⟩ hs => h.after hlen hs)
    ⟨[], inv_init⟩ hrun

/-- The file of one instrument. -/
theorem files_right_iff (hown : OwnFiles opens argv1 file) (hlen : ∀ line ∈ (getlines file).tail, line.length < 512)
    (hrun : run (Splitter.step opens argv1) (.init file files) as = some t) (hend : t.Ended) {k : Bytes} (hk : k ≠ [])
    (hne : dataLines file k ≠ []) {f : Nat} (hf : opens (dstPath argv1 k) = some f) :
    t.files f = unlines ((getlines file).headD [] :: dataLines file k) ↔
      ∀ l ∈ dataLines file k, isEnd l = false ∧ ∀ l' ∈ dataLines file k, l' = l := by
  obtain ⟨done, hinv⟩ := inv_run hlen hrun
  have hdone : (getlines file).tail = done := by rw [hinv.lines, hend.ifs, List.append_nil]
  have hdata : dataLines file k = linesOf k done := by rw [dataLines, hdone, linesOf]
  have hlines : ∀ l ∈ linesOf k done, newline ∉ l := fun l hl => newline_not_mem_dataLines (hdata ▸ hl)
  have hchild := hinv.children k hk
  have hreturned := hend.children k
  rw [hinv.csvHead, hend.stopped] at hchild
  rw [hdata] at hne ⊢
  generalize linesOf k done = own at hchild hlines hne
  generalize t.mapPipe k = oc at hchild hreturned
  cases hchild with
  | none => exact absurd rfl hne
  | @some line lines c wrote hp hfiles =>
    have hstage := hreturned c rfl
    cases wrote with
    | none =>
      cases hp with
      | forked => cases hstage
      | unopened hdst =>
        rw [hdst] at hf
        cases hf
    | some p =>
      obtain rfl : p.1 = f := Option.some.inj ((hp.dst_eq rfl).symm.trans hf)
      rw [hfiles hown p rfl, hp.dstFile_eq_iff (newline_not_mem_head file) hlines hstage]
      constructor
      · exact fun h l hl => ⟨(h l hl).1, fun l' hl' => (h l' hl').2.trans (h l hl).2.symm⟩
      · exact fun h l hl => ⟨(h l hl).1, (h line List.mem_cons_self).2 l hl⟩

theorem SplitRight.ownFiles (h : SplitRight opens argv1 file t) : OwnFiles opens argv1 file := by
  intro k hk hne
  obtain ⟨f, hf, hcontent⟩ := h k hk hne
  refine ⟨f, hf, fun k' hk' hne' hf' => ?_⟩
  obtain ⟨f', hopened, hcontent'⟩ := h k' hk' hne'
  obtain rfl : f' = f := Option.some.inj (hopened.symm.trans hf')
  have hlines : ∀ k, ∀ l ∈ (getlines file).headD [] :: dataLines file k, newline ∉ l := fun k =>
    List.forall_mem_cons.2 ⟨newline_not_mem_head file, fun _ hl => newline_not_mem_dataLines hl⟩
  have hsame := (List.cons.inj (unlines_inj (hlines k') (hlines k) (hcontent'.symm.trans hcontent))).2
  obtain ⟨l, hl⟩ := List.exists_mem_of_ne_nil _ hne'
  exact (mem_dataLines.1 hl).2.symm.trans (mem_dataLines.1 (hsame ▸ hl)).2

end

/-! ## The end of a run -/

/-- How much a child has to do. -/
def Child.left (c : Child) : Nat :=
  c.pipe.length +
    match c.stage with
    | .forked => 2
    | .opened _ => 1
    | .reading .. | .returned => 0

theorem Child.pipe_handle (c : Child) (f pos : Nat) (rbuf : Bytes) (files : Nat → Bytes) :
    (c.handle f pos rbuf files).1.pipe = c.pipe := by
  rw [handle]
  split
  · rfl
  · split <;> rfl

theorem Child.left_handle (c : Child) (f pos : Nat) (rbuf : Bytes) (files : Nat → Bytes)
    (hstage : ∃ f p, c.stage = .reading f p) : (c.handle f pos rbuf files).1.left = c.pipe.length := by
  obtain ⟨g, p, hstage⟩ := hstage
  have hleft : ∀ {c' : Child}, c'.stage = .returned ∨ (∃ f p, c'.stage = .reading f p) → c'.left = c'.pipe.length := by
    rintro ⟨line, pipe, stage⟩ h
    rcases h with rfl | ⟨f, p, rfl⟩ <;> rfl
  rw [← c.pipe_handle f pos rbuf files]
  refine hleft ?_
  rw [handle]
  split
  · exact .inr ⟨g, p, hstage⟩
  · split
    · exact .inl rfl
    · exact .inr ⟨_, _, rfl⟩

theorem Child.step_reading {c : Child} {f pos : Nat} (hstage : c.stage = .reading f pos) {rbuf pipe : Bytes}
    (hread : fixread c.pipe = some (rbuf, pipe)) (dst : Option Nat) (csvHead : Bytes) (files : Nat → Bytes) :
    c.step dst csvHead files = some ({ c with pipe := pipe }.handle f pos rbuf files) := by
  simp only [Child.step, hstage, hread, Option.map_some]

theorem Progress.exists_step {dst : Option Nat} {csvHead line : Bytes} {records : List Bytes} {c : Child}
    {wrote : Option (Nat × Bytes)} (h : Progress dst csvHead line (records ++ [text "end"]) c wrote)
    (hrecords : ∀ r ∈ records ++ [text "end"], r ≠ [] ∧ r.length < 512) (hrun : c.stage ≠ .returned)
    (files : Nat → Bytes) : ∃ next, c.step dst csvHead files = some next ∧ next.1.left < c.left := by
  cases h with
  | forked =>
    cases dst with
    | none => exact ⟨_, rfl, by simp [Child.left]⟩
    | some f => exact ⟨_, rfl, by simp [Child.left]⟩
  | opened f hdst => exact ⟨_, rfl, by simp [Child.left]⟩
  | unopened | returned => exact absurd rfl hrun
  | reading f hdst read unread hrec hread =>
    have hmem : text "end" ∈ read ++ unread := hrec ▸ List.mem_append_right _ List.mem_cons_self
    cases unread with
    | nil =>
      have hno := hread _ ((List.append_nil read) ▸ hmem)
      exact absurd hno (by decide)
    | cons r unread =>
      have hfits := (hrecords r (hrec ▸ List.mem_append_right _ List.mem_cons_self)).2
      have hnext : fixread ((r :: unread).flatMap fixwrite) = some (r, unread.flatMap fixwrite) := by
        rw [List.flatMap_cons, fixread_fixwrite (by omega)]
      refine ⟨_, Child.step_reading rfl hnext dst csvHead files, ?_⟩
      have hshort : (unread.flatMap fixwrite).length < ((r :: unread).flatMap fixwrite).length := by
        rw [List.flatMap_cons, List.length_append, length_fixwrite]
        omega
      rw [Child.left_handle _ _ _ _ _ ⟨f, _, rfl⟩]
      exact hshort

section
variable {opens : Bytes → Option Nat} {argv1 file : Bytes} {files : Nat → Bytes} {done : List Bytes} {s : Splitter}

theorem Inv.childGoesOn (h : Inv opens argv1 file done s) (hlen : ∀ line ∈ (getlines file).tail, line.length < 512)
    (hstop : s.stopped = true) {k : Bytes} {c : Child} (hc : s.mapPipe k = some c) (hrun : c.stage ≠ .returned) :
    ∃ t c', s.step opens argv1 (.child k) = some t ∧ Inv opens argv1 file done t ∧ t.stopped = true ∧
      t.mapPipe k = some c' ∧ c'.left < c.left ∧ ∀ k' ≠ k, t.mapPipe k' = s.mapPipe k' := by
  have hk := h.ne_nil hc
  have hchild := h.children k hk
  have hrecords := record_fits hlen h.lines hk s.stopped
  obtain ⟨⟨c', files'⟩, hstep, hlt⟩ : ∃ next, c.step (opens (dstPath argv1 k)) s.csvHead s.files = some next ∧
      next.1.left < c.left := by
    rw [hc, hstop] at hchild
    rw [hstop] at hrecords
    generalize linesOf k done = own at hchild hrecords
    cases hchild with
    | some hp => exact hp.exists_step hrecords hrun s.files
  have htaken : s.step opens argv1 (.child k) =
      some { s with mapPipe := Function.update s.mapPipe k (some c'), files := files' } := by
    rw [Splitter.step, hc]
    simp only [hstep, Option.map_some]
  exact ⟨_, c', htaken, h.childStep hlen hc hstep, hstop, Function.update_self .., hlt, fun k' hk' =>
    Function.update_of_ne hk' _ _⟩

theorem Inv.childEnds (hlen : ∀ line ∈ (getlines file).tail, line.length < 512) (k : Bytes) (n : Nat) :
    ∀ {s : Splitter}, Inv opens argv1 file done s → s.stopped = true → (∀ c, s.mapPipe k = some c → c.left < n) →
      ∃ as t, run (Splitter.step opens argv1) s as = some t ∧ Inv opens argv1 file done t ∧ t.stopped = true ∧
        (∀ c, t.mapPipe k = some c → c.stage = .returned) ∧ ∀ k' ≠ k, t.mapPipe k' = s.mapPipe k' := by
  induction n with
  | zero => exact fun {s} h hstop hleft =>
      ⟨[], s, rfl, h, hstop, fun c hc => absurd (hleft c hc) (Nat.not_lt_zero _), fun _ _ => rfl⟩
  | succ n ih =>
    intro s h hstop hleft
    by_cases hdone : ∀ c, s.mapPipe k = some c → c.stage = .returned
    · exact ⟨[], s, rfl, h, hstop, hdone, fun _ _ => rfl⟩
    push Not at hdone
    obtain ⟨c, hc, hrun⟩ := hdone
    obtain ⟨u, c', hstep, hu, hustop, hc', hlt, hsame⟩ := h.childGoesOn hlen hstop hc hrun
    have hless : ∀ d, u.mapPipe k = some d → d.left < n := by
      intro d hd
      obtain rfl := Option.some.inj (hc'.symm.trans hd)
      have := hleft c hc
      omega
    obtain ⟨as, t, hrest, hinv, hstop', hended, hothers⟩ := ih hu hustop hless
    refine ⟨.child k :: as, t, ?_, hinv, hstop', hended, fun k' hk' => (hothers k' hk').trans (hsame k' hk')⟩
    rw [run, hstep]
    exact hrest

theorem Inv.parentStops (ifs : List Bytes) : ∀ {done : List Bytes} {s : Splitter}, Inv opens argv1 file done s →
    s.ifs = ifs → s.stopped = false → ∃ as t, run (Splitter.step opens argv1) s as = some t ∧
      Inv opens argv1 file (done ++ ifs) t ∧ t.stopped = true := by
  induction ifs with
  | nil =>
    intro done s h hifs hgoing
    have hstep : s.step opens argv1 .parent = some { s with
        stopped := true, mapPipe := fun k => (s.mapPipe k).map (·.write (text "end")) } := by
      simp only [Splitter.step, hifs, hgoing, Bool.false_eq_true, if_false]
    refine ⟨[.parent], _, by rw [run, hstep]; rfl, ?_, rfl⟩
    rw [List.append_nil]
    exact h.stop hifs hgoing
  | cons line ifs ih =>
    intro done s h hifs hgoing
    have hstep : s.step opens argv1 .parent = some { s with ifs := ifs, mapPipe := s.takeLine line } := by
      simp only [Splitter.step, hifs]
    obtain ⟨as, t, hrun, hinv, hstop⟩ := ih (h.takeLine hifs) rfl hgoing
    refine ⟨.parent :: as, t, by rw [run, hstep]; exact hrun, ?_, hstop⟩
    rwa [List.append_assoc] at hinv

theorem Inv.childrenEnd (hlen : ∀ line ∈ (getlines file).tail, line.length < 512) (ks : List Bytes) :
    ∀ {s : Splitter}, Inv opens argv1 file done s → s.stopped = true →
      ∃ as t, run (Splitter.step opens argv1) s as = some t ∧ Inv opens argv1 file done t ∧ t.stopped = true ∧
        (∀ k ∈ ks, ∀ c, t.mapPipe k = some c → c.stage = .returned) ∧ ∀ k ∉ ks, t.mapPipe k = s.mapPipe k := by
  induction ks with
  | nil => exact fun {s} h hstop => ⟨[], s, rfl, h, hstop, List.forall_mem_nil _, fun _ _ => rfl⟩
  | cons k ks ih =>
    intro s h hstop
    obtain ⟨as, t, hrun, hinv, hstop', hended, hothers⟩ := ih h hstop
    obtain ⟨bs, u, hrun', hinv', hstop'', hended', hothers'⟩ := hinv.childEnds hlen k
      (((t.mapPipe k).map fun c => c.left + 1).getD 0) hstop' (fun c hc => by rw [hc]; exact Nat.lt_succ_self _)
    refine ⟨as ++ bs, u, run_append_of hrun hrun', hinv', hstop'', fun k' hk' c hc => ?_, fun k' hk' => ?_⟩
    · by_cases heq : k' = k
      · exact hended' c (heq ▸ hc)
      · rw [hothers' k' heq] at hc
        exact hended k' ((List.mem_cons.1 hk').resolve_left heq) c hc
    · rw [List.mem_cons, not_or] at hk'
      rw [hothers' k' hk'.1, hothers k' hk'.2]

theorem exists_ended (opens : Bytes → Option Nat) (argv1 : Bytes) (files : Nat → Bytes)
    (hlen : ∀ line ∈ (getlines file).tail, line.length < 512) :
    ∃ as t, run (Splitter.step opens argv1) (.init file files) as = some t ∧ t.Ended := by
  have hinit : Inv opens argv1 file [] (.init file files) := inv_init
  obtain ⟨as, s, hrun, hinv, hstop⟩ := hinit.parentStops _ rfl rfl
  obtain ⟨bs, t, hrun', hinv', hstop', hended, -⟩ := hinv.childrenEnd hlen ((getlines file).tail.map strIns) hstop
  refine ⟨as ++ bs, t, run_append_of hrun hrun', hinv'.stopped hstop', hstop', fun k c hc => ?_⟩
  by_cases hk : k ∈ (getlines file).tail.map strIns
  · exact hended k hk c hc
  · -- no line is of this instrument, so it has no child
    have hne := hinv'.ne_nil hc
    have hnone : linesOf k ([] ++ (Splitter.init file files).ifs) = [] :=
      List.filter_eq_nil_iff.2 fun line hline hins =>
      hk (List.mem_map.2 ⟨line, hline, of_decide_eq_true hins⟩)
    have hchild := hinv'.children k hne
    rw [hnone, hc] at hchild
    cases hchild

end

/-! ## Files of copper -/

/-- The path of the instrument can be opened, and no other. -/
def opensCopper (path : Bytes) : Option Nat := if path = text "Split_md/mdCU.csv" then some 0 else none

/-- One instrument, with the same line twice. -/
def copperTwice : Bytes := text "Ins,Px\nCU,1\nCU,1\n"

theorem eq_copper {file k : Bytes} (hfile : ∀ line ∈ (getlines file).tail, strIns line = text "CU" ∨ strIns line = [])
    (hk : k ≠ []) (hne : dataLines file k ≠ []) : k = text "CU" := by
  obtain ⟨l, hl⟩ := List.exists_mem_of_ne_nil _ hne
  obtain ⟨hmem, rfl⟩ := mem_dataLines.1 hl
  exact (hfile l hmem).resolve_right hk

theorem ownFiles_copperTwice : OwnFiles opensCopper (text "md.csv") copperTwice := by
  have hfile : ∀ line ∈ (getlines copperTwice).tail, strIns line = text "CU" ∨ strIns line = [] := by decide
  intro k hk hne
  obtain rfl := eq_copper hfile hk hne
  exact ⟨0, by decide, fun k' hk' hne' _ => eq_copper hfile hk' hne'⟩

/-- The second line of copper is another, and its file gets the first line twice. -/
def copperMoves : Bytes := text "Ins,Px\nCU,1\nCU,2\n"

end CppLinuxLearn.Trivials
