import Fghj.Library.Listing
import Fghj.Library.Text
import Mathlib.Data.String.Basic

/-!
# The hosts file

The additional hosts of running containers stand in a block of the system's hosts file between two
markers. A sync copies the lines outside of blocks and writes the block anew. What it keeps is what
it can read: a file that does not decode counts as empty, a carriage return at the end of a line
and an end marker without a block are lost.
-/

namespace Fghj
namespace HostsFile

open Text Listing

def beginMarker : List Char := "# fghj-managed-begin".toList

def endMarker : List Char := "# fghj-managed-end".toList

/-- The address the proxy listens on. -/
def proxyIp : List Char := "127.222.0.1".toList

/-- The file on disk, and whether the daemon may read it. -/
structure File where
  bytes : ByteArray
  readable : Bool := true

/-- The text of the file, if it can be read and decoded. -/
def File.readToString (file : File) : Option String :=
  if file.readable then String.fromUTF8? file.bytes else none

/-! ## Writing -/

/-- The lines copied so far, and whether the last one was inside a block. -/
structure Copy where
  inBlock : Bool := false
  out : List Char := []

def copyLine (copy : Copy) (line : List Char) : Copy :=
  if trim line = beginMarker then { copy with inBlock := true }
  else if trim line = endMarker then { copy with inBlock := false }
  else if copy.inBlock then copy
  else { copy with out := copy.out ++ line ++ ['\n'] }

/-- The block of these hosts; none for no hosts. -/
def block (hosts : List String) : List Char :=
  if hosts.isEmpty then []
  else
    beginMarker ++ ['\n'] ++
      hosts.flatMap (fun host => proxyIp ++ [' '] ++ host.toList ++ ['\n']) ++
      endMarker ++ ['\n']

/-- The text a sync leaves. -/
def rewritten (existing : List Char) (hosts : List String) : List Char :=
  ((lines existing).foldl copyLine {}).out ++ block (sortDedup hosts)

/-- Make the managed block list exactly these hosts. -/
def sync (file : File) (hosts : List String) : File :=
  let existing := file.readToString.getD ""
  let out := String.ofList (rewritten existing.toList hosts)
  if out = existing then file else { file with bytes := out.toUTF8 }

/-! ## Reading -/

/-- The hosts read so far, and whether the last line was inside a block. -/
structure Reading where
  inBlock : Bool := false
  hosts : List String := []

def readLine (reading : Reading) (line : List Char) : Reading :=
  if trim line = beginMarker then { reading with inBlock := true }
  else if trim line = endMarker then { reading with inBlock := false }
  else if reading.inBlock then
    match stripPrefix (proxyIp ++ [' ']) (trim line) with
    | some host => { reading with hosts := reading.hosts ++ [String.ofList host] }
    | none => reading
  else reading

/-- The hosts the managed blocks of the file list. -/
def managedHosts (file : File) : List String :=
  ((lines (file.readToString.getD "").toList).foldl readLine {}).hosts

/-! ## What is not fghj's -/

/-- The lines outside of blocks, from a place inside or outside of one. -/
def unmanagedFrom : Bool → List (List Char) → List (List Char)
  | _, [] => []
  | true, line :: rest => unmanagedFrom (trim line ≠ endMarker) rest
  | false, line :: rest =>
      if trim line = beginMarker then unmanagedFrom true rest else line :: unmanagedFrom false rest

/-- The lines of a text outside of managed blocks. -/
def unmanaged (text : String) : List (List Char) := unmanagedFrom false (rawLines text.toList)

/-- The file keeps what is not fghj's, and lists exactly the hosts. -/
structure Keeps (file : File) (hosts : List String) : Prop where
  lines : ∀ text, file.readToString = some text →
    ∃ after, (sync file hosts).readToString = some after ∧ unmanaged after = unmanaged text
  listed : file.readToString.isSome → managedHosts (sync file hosts) = sortDedup hosts
  stable : file.readToString.isSome → ∀ others, (∀ host, host ∈ others ↔ host ∈ hosts) →
    sync (sync file hosts) others = sync file hosts
  undone : ∀ text, file.readToString = some text →
    (sync (sync file hosts) []).readToString = some (String.ofList (unlines (unmanaged text)))
  spared : file.readToString = none →
    file.bytes.data.toList <:+: (sync file hosts).bytes.data.toList

/-- A host that can stand in a line of its own: not empty, without a newline, and without a space at
its end. -/
def Plain (host : String) : Prop :=
  host ≠ "" ∧ '\n' ∉ host.toList ∧ ∀ char, host.toList.getLast? = some char → ¬isWhitespace char

/-- A readable file has no carriage return at the end of a line outside of blocks and no end marker
without a block, and its hosts can be listed; a file that cannot be read is left alone or held no
more than the block. -/
def Safe (file : File) (hosts : List String) : Prop :=
  match file.readToString with
  | some text =>
      (∀ line ∈ unmanaged text, trim line ≠ endMarker ∧ line.getLast? ≠ some '\r') ∧
        ∀ host ∈ hosts, Plain host
  | none =>
      hosts = [] ∨ file.bytes.data.toList <:+:
        (String.ofList (block (sortDedup hosts))).toUTF8.data.toList

/-! ## Copying -/

theorem unmanagedFrom_begin {marker : List Char} (marks : trim marker = beginMarker)
    (inBlock : Bool)
    (rest : List (List Char)) :
    unmanagedFrom inBlock (marker :: rest) = unmanagedFrom true rest := by
  have different : beginMarker ≠ endMarker := by decide
  cases inBlock with
  | true => simp [unmanagedFrom, marks, different]
  | false => simp [unmanagedFrom, marks]

/-- What is copied are the lines outside of blocks, without end markers. -/
theorem foldl_copyLine (texts : List (List Char)) (copy : Copy) :
    (texts.foldl copyLine copy).out = copy.out ++
      unlines ((unmanagedFrom copy.inBlock texts).filter fun line => trim line ≠ endMarker) := by
  induction texts generalizing copy with
  | nil => simp [unmanagedFrom, unlines]
  | cons line texts ih =>
      rw [List.foldl_cons, ih]
      unfold copyLine
      by_cases begins : trim line = beginMarker
      · rw [if_pos begins, unmanagedFrom_begin begins]
      · by_cases ends : trim line = endMarker
        · rw [if_neg begins, if_pos ends]
          cases copy.inBlock with
          | true => simp [unmanagedFrom, ends]
          | false =>
              rw [unmanagedFrom, if_neg begins]
              simp [ends]
        · rw [if_neg begins, if_neg ends]
          cases inBlock : copy.inBlock with
          | true => simp [unmanagedFrom, ends, inBlock]
          | false => simp [unmanagedFrom, begins, ends, unlines]

/-- The lines a sync copies. -/
def copied (text : List Char) : List (List Char) :=
  (unmanagedFrom false (lines text)).filter fun line => trim line ≠ endMarker

/-- The lines of a block. -/
def blockLines (hosts : List String) : List (List Char) :=
  if hosts.isEmpty then []
  else beginMarker :: (hosts.map fun host => proxyIp ++ [' '] ++ host.toList) ++ [endMarker]

theorem block_eq (hosts : List String) : block hosts = unlines (blockLines hosts) := by
  unfold block blockLines unlines
  split
  · rfl
  · simp [List.flatMap_map]

theorem rewritten_eq (text : List Char) (hosts : List String) :
    rewritten text hosts = unlines (copied text ++ blockLines (sortDedup hosts)) := by
  rw [rewritten, foldl_copyLine, block_eq]
  simp [copied, unlines]

theorem readToString_toUTF8 (text : String) : String.fromUTF8? text.toUTF8 = some text := by
  rw [String.fromUTF8?, String.toUTF8_eq_toByteArray, dif_pos text.isValidUTF8]
  rfl

/-- A readable file holds what a sync rewrites it to. -/
theorem readToString_sync {file : File} {text : String} (held : file.readToString = some text)
    (hosts : List String) :
    (sync file hosts).readToString = some (String.ofList (rewritten text.toList hosts)) := by
  have readable : file.readable = true := by
    unfold File.readToString at held
    split at held
    · assumption
    · cases held
  simp only [sync, held, Option.getD_some]
  split
  · rename_i same
    rw [held, same]
  · simp only [File.readToString, readable, if_true]
    exact readToString_toUTF8 _

/-! ## Carriage returns -/

theorem stripReturn_eq_self {line : List Char} :
    stripReturn line = line ↔ line.getLast? ≠ some '\r' := by
  unfold stripReturn
  split
  · rename_i ends
    constructor
    · intro same
      have shorter := congrArg List.length same
      have nonempty : line ≠ [] := by
        rintro rfl
        cases ends
      have positive := List.length_pos_iff.mpr nonempty
      rw [List.length_dropLast] at shorter
      omega
    · exact fun different => (different ends).elim
  · rename_i differs
    exact ⟨fun _ => differs, fun _ => rfl⟩

/-- The line as read, with or without the carriage return at its end. -/
def Stripped (raw line : List Char) : Prop := line = raw ∨ line = stripReturn raw

theorem Stripped.trim_eq {raw line : List Char} (stripped : Stripped raw line) :
    trim line = trim raw := by
  rcases stripped with rfl | rfl
  · rfl
  · exact trim_stripReturn raw

theorem lines_stripped (text : List Char) : List.Forall₂ Stripped (rawLines text) (lines text) := by
  apply List.rel_append
  · rw [List.forall₂_map_right_iff]
    exact List.forall₂_same.mpr fun line _ => .inr rfl
  · exact List.forall₂_same.mpr fun line _ => .inl rfl

/-- Which lines are outside of blocks does not depend on carriage returns. -/
theorem unmanagedFrom_stripped {raws texts : List (List Char)}
    (stripped : List.Forall₂ Stripped raws texts) (inBlock : Bool) :
    List.Forall₂ Stripped (unmanagedFrom inBlock raws) (unmanagedFrom inBlock texts) := by
  induction stripped generalizing inBlock with
  | nil => cases inBlock <;> exact List.Forall₂.nil
  | cons first rest ih =>
      cases inBlock with
      | true =>
          simp only [unmanagedFrom, first.trim_eq]
          exact ih _
      | false =>
          simp only [unmanagedFrom, first.trim_eq]
          split
          · exact ih true
          · exact List.Forall₂.cons first (ih false)

theorem newline_not_mem_lines {text line : List Char} (member : line ∈ lines text) :
    '\n' ∉ line := by
  rcases List.mem_append.mp member with ended | last
  · obtain ⟨raw, listed, rfl⟩ := List.mem_map.mp ended
    have absent := newline_not_mem_rawLines (List.mem_append_left (lastLine text) listed)
    unfold stripReturn
    split
    · exact fun inside => absent ((List.dropLast_sublist raw).subset inside)
    · exact absent
  · exact newline_not_mem_rawLines (List.mem_append_right _ last)

/-! ## The block -/

/-- The line of a host in the block. -/
def entryLine (host : String) : List Char := proxyIp ++ [' '] ++ host.toList

section Entry

variable {host : String}

theorem Plain.getLast? (plain : Plain host) : (entryLine host).getLast? = host.toList.getLast? := by
  have nonempty : host.toList ≠ [] := by simpa using plain.1
  rw [entryLine, List.getLast?_append_of_ne_nil _ nonempty]

theorem Plain.trim_entryLine (plain : Plain host) : trim (entryLine host) = entryLine host := by
  apply trim_eq_of_ends
  · intro char first
    cases first
    decide
  · intro char last
    rw [plain.getLast?] at last
    exact plain.2.2 char last

theorem Plain.newline_not_mem (plain : Plain host) : '\n' ∉ entryLine host := by
  rw [entryLine, List.mem_append, not_or]
  exact ⟨by decide, plain.2.1⟩

theorem Plain.stripReturn_entryLine (plain : Plain host) :
    stripReturn (entryLine host) = entryLine host := by
  rw [stripReturn_eq_self, plain.getLast?]
  exact fun last => plain.2.2 '\r' last rfl

theorem entryLine_ne_marker (host : String) :
    entryLine host ≠ beginMarker ∧ entryLine host ≠ endMarker := by
  constructor
  · intro same
    cases congrArg List.head? same
  · intro same
    cases congrArg List.head? same

theorem stripPrefix_entryLine (host : String) :
    stripPrefix (proxyIp ++ [' ']) (entryLine host) = some host.toList :=
  stripPrefix_append _ _

end Entry

theorem blockLines_of_ne_nil {hosts : List String} (nonempty : hosts ≠ []) :
    blockLines hosts = beginMarker :: hosts.map entryLine ++ [endMarker] := by
  have filled : ¬hosts.isEmpty := by simpa using nonempty
  rw [blockLines, if_neg filled]
  rfl

theorem trim_beginMarker : trim beginMarker = beginMarker := by decide

theorem trim_endMarker : trim endMarker = endMarker := by decide

section Block

variable {hosts : List String}

theorem newline_not_mem_blockLines (plain : ∀ host ∈ hosts, Plain host) :
    ∀ line ∈ blockLines hosts, '\n' ∉ line := by
  by_cases empty : hosts = []
  · subst empty
    exact fun line member => by cases member
  · rw [blockLines_of_ne_nil empty]
    intro line member
    simp only [List.cons_append, List.mem_cons, List.mem_append, List.mem_map, List.not_mem_nil,
      or_false] at member
    rcases member with rfl | ⟨host, listed, rfl⟩ | rfl
    · decide
    · exact (plain host listed).newline_not_mem
    · decide

theorem map_stripReturn_blockLines (plain : ∀ host ∈ hosts, Plain host) :
    (blockLines hosts).map stripReturn = blockLines hosts := by
  by_cases empty : hosts = []
  · subst empty
    rfl
  · rw [blockLines_of_ne_nil empty, List.map_append, List.map_cons, List.map_map]
    have entries : hosts.map (stripReturn ∘ entryLine) = hosts.map entryLine :=
      List.map_congr_left fun host listed => (plain host listed).stripReturn_entryLine
    rw [entries]
    rfl

/-- No line of a block is outside of it. -/
theorem unmanagedFrom_blockLines (plain : ∀ host ∈ hosts, Plain host) :
    unmanagedFrom false (blockLines hosts) = [] := by
  have entries : ∀ hosts : List String, (∀ host ∈ hosts, Plain host) →
      unmanagedFrom true (hosts.map entryLine ++ [endMarker]) = [] := by
    intro hosts plain
    induction hosts with
    | nil => simp [unmanagedFrom]
    | cons host hosts ih =>
        rw [List.forall_mem_cons] at plain
        have inside : trim (entryLine host) ≠ endMarker := by
          rw [plain.1.trim_entryLine]
          exact (entryLine_ne_marker host).2
        simpa [unmanagedFrom, inside] using ih plain.2
  by_cases empty : hosts = []
  · subst empty
    rfl
  · rw [blockLines_of_ne_nil empty, List.cons_append, unmanagedFrom_begin trim_beginMarker]
    exact entries hosts plain

theorem unmanagedFrom_append {texts : List (List Char)}
    (outside : ∀ line ∈ texts, trim line ≠ beginMarker) (rest : List (List Char)) :
    unmanagedFrom false (texts ++ rest) = texts ++ unmanagedFrom false rest := by
  induction texts with
  | nil => rfl
  | cons line texts ih =>
      rw [List.forall_mem_cons] at outside
      simp [unmanagedFrom, outside.1, ih outside.2]

/-- A block lists its hosts. -/
theorem foldl_readLine_blockLines (plain : ∀ host ∈ hosts, Plain host) (reading : Reading) :
    ((blockLines hosts).foldl readLine reading).hosts = reading.hosts ++ hosts := by
  have entries : ∀ hosts : List String, (∀ host ∈ hosts, Plain host) → ∀ reading : Reading,
      reading.inBlock = true →
        ((hosts.map entryLine).foldl readLine reading).hosts = reading.hosts ++ hosts := by
    intro hosts plain
    induction hosts with
    | nil => simp
    | cons host hosts ih =>
        intro reading inside
        rw [List.forall_mem_cons] at plain
        have read : readLine reading (entryLine host) =
            { reading with hosts := reading.hosts ++ [host] } := by
          simp [readLine, plain.1.trim_entryLine, entryLine_ne_marker, inside,
            stripPrefix_entryLine]
        have later := ih plain.2 { reading with hosts := reading.hosts ++ [host] } inside
        rw [List.map_cons, List.foldl_cons, read, later]
        simp
  by_cases empty : hosts = []
  · subst empty
    simp [blockLines]
  · have different : endMarker ≠ beginMarker := by decide
    rw [blockLines_of_ne_nil empty, List.cons_append, List.foldl_cons, List.foldl_append]
    have begun : readLine reading beginMarker = { reading with inBlock := true } := by
      simp [readLine, trim_beginMarker]
    rw [begun, List.foldl_cons, List.foldl_nil]
    have ended (reading : Reading) : (readLine reading endMarker).hosts = reading.hosts := by
      simp [readLine, trim_endMarker, different]
    rw [ended]
    exact entries hosts plain _ rfl

/-- Lines outside of blocks list nothing. -/
theorem foldl_readLine_outside {texts : List (List Char)}
    (outside : ∀ line ∈ texts, trim line ≠ beginMarker) {reading : Reading}
    (closed : reading.inBlock = false) : texts.foldl readLine reading = reading := by
  induction texts with
  | nil => rfl
  | cons line texts ih =>
      rw [List.forall_mem_cons] at outside
      have skipped : readLine reading line = reading := by
        unfold readLine
        rw [if_neg outside.1]
        split
        · rw [← closed]
        · simp [closed]
      rw [List.foldl_cons, skipped]
      exact ih outside.2

end Block

/-- What follows the address in a trimmed line is plain. -/
theorem plain_of_stripPrefix {line host : List Char} (single : '\n' ∉ line)
    (read : stripPrefix (proxyIp ++ [' ']) (trim line) = some host) :
      Plain (String.ofList host) := by
  have whole : trim line = proxyIp ++ [' '] ++ host := by
    unfold stripPrefix at read
    split at read
    · rename_i starts
      cases read
      obtain ⟨rest, rest_eq⟩ := List.isPrefixOf_iff_prefix.mp starts
      rw [← rest_eq, List.drop_left]
    · cases read
  have nonempty : host ≠ [] := by
    rintro rfl
    rw [List.append_nil] at whole
    exact getLast?_trim (by rw [whole]; rfl : (trim line).getLast? = some ' ') rfl
  refine ⟨by simpa using nonempty, ?_, ?_⟩
  · rw [String.toList_ofList]
    intro inside
    have member : '\n' ∈ trim line := by
      rw [whole]
      exact List.mem_append_right _ inside
    exact single (mem_of_mem_trim member)
  · intro char last
    apply @getLast?_trim line char
    rw [whole, List.getLast?_append_of_ne_nil _ nonempty]
    rwa [String.toList_ofList] at last

theorem plain_of_mem_managedHosts {file : File} {host : String}
    (member : host ∈ managedHosts file) : Plain host := by
  have every : ∀ host ∈ managedHosts file, Plain host := by
    apply List.foldlRecOn (motive := fun reading : Reading => ∀ host ∈ reading.hosts, Plain host)
    · exact fun _ listed => by cases listed
    · intro reading plain line listed
      unfold readLine
      split
      · exact plain
      · split
        · exact plain
        · split
          · split
            · rename_i rest read
              intro host inside
              rcases List.mem_append.mp inside with earlier | new
              · exact plain host earlier
              · obtain rfl := List.mem_singleton.mp new
                exact plain_of_stripPrefix (newline_not_mem_lines listed) read
            · exact plain
          · exact plain
  exact every host member

/-! ## A file that can be read -/

theorem mem_unmanagedFrom {inBlock : Bool} {texts : List (List Char)} {line : List Char}
    (member : line ∈ unmanagedFrom inBlock texts) : line ∈ texts ∧ trim line ≠ beginMarker := by
  induction texts generalizing inBlock with
  | nil => cases inBlock <;> cases member
  | cons first texts ih =>
      cases inBlock with
      | true =>
          obtain ⟨listed, outside⟩ := ih member
          exact ⟨List.mem_cons_of_mem _ listed, outside⟩
      | false =>
          rw [unmanagedFrom] at member
          split at member
          · obtain ⟨listed, outside⟩ := ih member
            exact ⟨List.mem_cons_of_mem _ listed, outside⟩
          · rename_i outside
            rcases List.mem_cons.mp member with rfl | later
            · exact ⟨List.mem_cons_self, outside⟩
            · obtain ⟨listed, rest⟩ := ih later
              exact ⟨List.mem_cons_of_mem _ listed, rest⟩

theorem mem_copied {text line : List Char} (member : line ∈ copied text) :
    '\n' ∉ line ∧ trim line ≠ beginMarker ∧ trim line ≠ endMarker := by
  obtain ⟨listed, apart⟩ := List.mem_filter.mp member
  obtain ⟨read, outside⟩ := mem_unmanagedFrom listed
  exact ⟨newline_not_mem_lines read, outside, by simpa using apart⟩

section Rewritten

variable {text : List Char} {hosts : List String}

theorem newline_not_mem_written (plain : ∀ host ∈ hosts, Plain host) :
    ∀ line ∈ copied text ++ blockLines (sortDedup hosts), '\n' ∉ line := by
  intro line member
  rcases List.mem_append.mp member with kept | listed
  · exact (mem_copied kept).1
  · exact newline_not_mem_blockLines (fun host inside => plain host (mem_sortDedup.mp inside)) line
      listed

theorem lines_rewritten (plain : ∀ host ∈ hosts, Plain host) :
    lines (rewritten text hosts) =
      (copied text).map stripReturn ++ blockLines (sortDedup hosts) := by
  rw [rewritten_eq, lines_unlines (newline_not_mem_written plain), List.map_append,
    map_stripReturn_blockLines fun host inside => plain host (mem_sortDedup.mp inside)]

theorem rawLines_rewritten (plain : ∀ host ∈ hosts, Plain host) :
    rawLines (rewritten text hosts) = copied text ++ blockLines (sortDedup hosts) := by
  rw [rewritten_eq, rawLines_unlines (newline_not_mem_written plain)]

theorem outside_of_mem_stripped {line : List Char} (member : line ∈ (copied text).map stripReturn) :
    trim line ≠ beginMarker ∧ trim line ≠ endMarker := by
  obtain ⟨raw, listed, rfl⟩ := List.mem_map.mp member
  rw [trim_stripReturn]
  exact (mem_copied listed).2

/-- After a sync the lines outside of blocks are those that were copied. -/
theorem unmanaged_rewritten (plain : ∀ host ∈ hosts, Plain host) :
    unmanaged (String.ofList (rewritten text hosts)) = copied text := by
  rw [unmanaged, String.toList_ofList, rawLines_rewritten plain,
    unmanagedFrom_append fun line kept => (mem_copied kept).2.1,
    unmanagedFrom_blockLines fun host inside => plain host (mem_sortDedup.mp inside),
    List.append_nil]

/-- The next sync copies them again, without their carriage returns. -/
theorem copied_rewritten (plain : ∀ host ∈ hosts, Plain host) :
    copied (rewritten text hosts) = (copied text).map stripReturn := by
  rw [copied, lines_rewritten plain,
    unmanagedFrom_append fun line kept => (outside_of_mem_stripped kept).1,
    unmanagedFrom_blockLines fun host inside => plain host (mem_sortDedup.mp inside),
    List.append_nil, List.filter_eq_self]
  intro line kept
  simpa using (outside_of_mem_stripped kept).2

theorem listed_rewritten (plain : ∀ host ∈ hosts, Plain host) :
    ((lines (rewritten text hosts)).foldl readLine {}).hosts = sortDedup hosts := by
  rw [lines_rewritten plain, List.foldl_append,
    foldl_readLine_outside (fun line kept => (outside_of_mem_stripped kept).1) rfl,
    foldl_readLine_blockLines fun host inside => plain host (mem_sortDedup.mp inside)]
  rfl

end Rewritten

theorem eq_of_stripped {raws texts : List (List Char)} (stripped : List.Forall₂ Stripped raws texts)
    (ended : ∀ raw ∈ raws, raw.getLast? ≠ some '\r') : texts = raws := by
  induction stripped with
  | nil => rfl
  | cons first rest ih =>
      rw [List.forall_mem_cons] at ended
      rw [ih ended.2]
      rcases first with rfl | rfl
      · rfl
      · rw [stripReturn_eq_self.mpr ended.1]

/-- Nothing is lost when no line outside of blocks ends in a carriage return or is an end marker. -/
theorem copied_eq_unmanaged {text : String}
    (sound : ∀ line ∈ unmanaged text, trim line ≠ endMarker ∧ line.getLast? ≠ some '\r') :
    copied text.toList = unmanaged text := by
  have stripped := unmanagedFrom_stripped (lines_stripped text.toList) false
  have same : unmanagedFrom false (lines text.toList) = unmanaged text :=
    eq_of_stripped stripped fun line member => (sound line member).2
  rw [copied, same, List.filter_eq_self]
  intro line member
  simpa using (sound line member).1

section Readable

variable {file : File} {text : String} (held : file.readToString = some text) {hosts : List String}

include held

theorem keeps_of_safe
    (sound : ∀ line ∈ unmanaged text, trim line ≠ endMarker ∧ line.getLast? ≠ some '\r')
    (plain : ∀ host ∈ hosts, Plain host) : Keeps file hosts := by
  have copies := copied_eq_unmanaged sound
  have synced := readToString_sync held hosts
  have again : copied (rewritten text.toList hosts) = unmanaged text := by
    rw [copied_rewritten plain, copies]
    have kept : ∀ line ∈ unmanaged text, stripReturn line = id line :=
      fun line member => stripReturn_eq_self.mpr (sound line member).2
    rw [List.map_congr_left kept, List.map_id]
  refine ⟨?_, ?_, ?_, ?_, ?_⟩
  · intro before before_eq
    cases held.symm.trans before_eq
    exact ⟨_, synced, by rw [unmanaged_rewritten plain, copies]⟩
  · intro _
    rw [managedHosts, synced, Option.getD_some, String.toList_ofList, listed_rewritten plain]
  · intro _ others same
    have settled : rewritten (rewritten text.toList hosts) others =
      rewritten text.toList hosts := by
      rw [rewritten_eq, again, rewritten_eq, copies, sortDedup_congr same]
    rw [sync, synced]
    simp [settled]
  · intro before before_eq
    cases held.symm.trans before_eq
    rw [readToString_sync synced, String.toList_ofList, rewritten_eq, again]
    simp [blockLines, sortDedup]
  · intro undecoded
    cases held.symm.trans undecoded

theorem safe_of_keeps (keeps : Keeps file hosts) :
    (∀ line ∈ unmanaged text, trim line ≠ endMarker ∧ line.getLast? ≠ some '\r') ∧
      ∀ host ∈ hosts, Plain host := by
  have decoded : file.readToString.isSome := by rw [held]; rfl
  have plain : ∀ host ∈ hosts, Plain host := by
    intro host listed
    apply @plain_of_mem_managedHosts (sync file hosts)
    rw [keeps.listed decoded, mem_sortDedup]
    exact listed
  have synced := readToString_sync held hosts
  obtain ⟨after, after_eq, kept⟩ := keeps.lines text held
  cases synced.symm.trans after_eq
  rw [unmanaged_rewritten plain] at kept
  -- the second sync copies the lines without carriage returns, and changes nothing
  have unchanged : (copied text.toList).map stripReturn = (copied text.toList).map id := by
    have settled := keeps.stable decoded hosts fun _ => Iff.rfl
    have same := readToString_sync synced hosts
    rw [settled, synced, String.toList_ofList, Option.some.injEq, String.ofList_inj] at same
    have written := congrArg rawLines same
    rw [rawLines_rewritten plain, rawLines_rewritten plain, copied_rewritten plain] at written
    rw [List.map_id]
    exact (List.append_cancel_right written).symm
  refine ⟨fun line member => ?_, plain⟩
  rw [← kept] at member
  exact ⟨(mem_copied member).2.2,
    stripReturn_eq_self.mp (List.map_inj_left.mp unchanged line member)⟩

end Readable

/-- A file that cannot be read is overwritten with the block alone. -/
theorem sync_undecoded {file : File} (undecoded : file.readToString = none) (hosts : List String) :
    (sync file hosts).bytes =
      if hosts = [] then file.bytes
      else (String.ofList (block (sortDedup hosts))).toUTF8 := by
  have bare : rewritten [] hosts = block (sortDedup hosts) := rfl
  simp only [sync, undecoded, Option.getD_none, String.toList_empty, bare]
  by_cases none : hosts = []
  · subst none
    rfl
  · obtain ⟨host, rest, rfl⟩ := List.exists_cons_of_ne_nil none
    have listed : sortDedup (host :: rest) ≠ [] :=
      List.ne_nil_of_mem (mem_sortDedup.mpr List.mem_cons_self)
    have written : String.ofList (block (sortDedup (host :: rest))) ≠ "" := by
      intro empty
      have chars := congrArg String.toList empty
      rw [String.toList_ofList, block_eq, blockLines_of_ne_nil listed] at chars
      cases congrArg List.head? chars
    rw [if_neg written, if_neg none]

/-- A hosts file with a comment in Latin-1. -/
def latinHosts : File where
  bytes := "127.0.0.1 localhost\n# caf".toUTF8 ++ ⟨#[0xE9, 0x0A]⟩

end HostsFile
end Fghj
