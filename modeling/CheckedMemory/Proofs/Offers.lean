import CheckedMemory.Description
import CheckedMemory.Heap.Release
import CheckedMemory.Pointer.Cast
import CheckedMemory.Pointer.Object
import CheckedMemory.Session.Handle
import CheckedMemory.Thread

/-!
# What the library offers

The operations of the library by family, each with any arguments: any handle, whether it refers to
anything or not, any count, index and value.  A claim about all of them is a claim about each
family.  Two things are told apart.  Most operations are `Offers`; those that are handed a value for
good are `Consumes`, with what the release of the value writes to the drop log.

Resizing is in neither, as what holds of the others does not hold of it.
-/

namespace CheckedMemory

open Operation

/-! ## 1. Storage -/

/-- Texts as memory can hold them: each is smaller than anything may be, and so are the pointers to
all of them. -/
def CString.Fit (texts : List String) : Prop :=
  (∀ t ∈ texts, t.toUTF8.toList.length < Layout.maxSize) ∧
    texts.length * (ElemType.layout (.arrayPointer .uint8)).size ≤ Layout.maxSize

/-- The making of storage, of the heap, of the whole run or of the current frame. -/
inductive Allocates : {α : Type} → Operation α → Prop where
  | array (τ) (count traced) : Allocates (ArrayPtr.new τ count traced)
  | list (τ) (xs : List τ.Carrier) : Allocates (ArrayPtr.ofList τ xs)
  | zeroed (τ) (count) : Allocates (ArrayPtr.zeroed τ count)
  | aligned (τ) (count align) : Allocates (ArrayPtr.aligned τ count align)
  | object (τ) (x : τ.Carrier) (traced) : Allocates (Ptr.new τ x traced)
  | zeroedObject (τ) : Allocates (Ptr.zeroed τ)
  | matrix (τ) (x y) : Allocates (Matrix.new τ x y)
  | staticArray (τ) (xs : List τ.Carrier) : Allocates (ArrayPtr.newStatic τ xs)
  | staticObject (τ) (x : τ.Carrier) : Allocates (Ptr.newStatic τ x)
  | global (τ) (xs : List τ.Carrier) : Allocates (GlobalArray.new τ xs)
  | localArray (τ) (xs : List τ.Carrier) : Allocates (StackArrayPtr.newLocal τ xs)
  | localFixed (τ) (xs : List τ.Carrier) : Allocates (FixedArray.newLocal τ xs)
  | heapFixed (τ) (xs : List τ.Carrier) : Allocates (FixedArray.newHeap τ xs)
  | bytes (bytes) : Allocates (CString.ofBytes bytes)
  | literal (text) : Allocates (CString.literal text)
  | vector (texts) (hfit : CString.Fit texts) : Allocates (CString.vector texts)

/-- Storage that takes over a value, with what the release of the value writes to the drop log. -/
inductive Consumes : {α : Type} → Operation α → List Int64 → Prop where
  | filled (τ) (count) (x : τ.Carrier) : Consumes (ArrayPtr.filled τ count x) (τ.dropMarks x)
  | record (σ τ) (count) (x : σ.Carrier) : Consumes (TailedPtr.new σ τ count x) (σ.dropMarks x)

/-- The release of storage, through a handle of any kind that can release. -/
inductive Releases : {α : Type} → Operation α → Prop where
  | object {τ} (p : Ptr τ) : Releases p.free
  | array {τ} (p : ArrayPtr τ) : Releases p.free
  | matrix {τ} (m : Matrix τ) : Releases m.free
  | record {σ τ} (p : TailedPtr σ τ) : Releases p.free

/-! ## 2. Elements and pointers -/

/-- Reads and writes of elements and objects, one or many. -/
inductive Accesses : {α : Type} → Operation α → Prop where
  -- arrays of either kind
  | index {P} [ArrayLike P] {τ} (p : P τ) (i) : Accesses (ArrayLike.index p i)
  | get? {P} [ArrayLike P] {τ} (p : P τ) (i) : Accesses (ArrayLike.get? p i)
  | set {P} [ArrayLike P] {τ} (p : P τ) (i) (x : τ.Carrier) :
    Accesses (ArrayLike.set p i x)
  | trySet {P} [ArrayLike P] {τ} (p : P τ) (i) (x : τ.Carrier) :
    Accesses (ArrayLike.trySet p i x)
  | toList {P} [ArrayLike P] {τ} (p : P τ) : Accesses (ArrayLike.toList p)
  | overwrite {P} [ArrayLike P] {τ} (p : P τ) (xs : List τ.Carrier) :
    Accesses (ArrayLike.overwrite p xs)
  -- objects
  | read {τ} (p : Ptr τ) : Accesses p.read
  | read? {τ} (p : Ptr τ) : Accesses p.read?
  | write {τ} (p : Ptr τ) (x : τ.Carrier) : Accesses (p.write x)
  | tryWrite {τ} (p : Ptr τ) (x : τ.Carrier) : Accesses (p.tryWrite x)
  | readStack {τ} (p : StackPtr τ) : Accesses p.read
  | readStack? {τ} (p : StackPtr τ) : Accesses p.read?
  | writeStack {τ} (p : StackPtr τ) (x : τ.Carrier) : Accesses (p.write x)
  | tryWriteStack {τ} (p : StackPtr τ) (x : τ.Carrier) : Accesses (p.tryWrite x)
  -- matrices and records
  | cell {τ} (m : Matrix τ) (x y) : Accesses (m.index x y)
  | cell? {τ} (m : Matrix τ) (x y) : Accesses (m.get? x y)
  | setCell {τ} (m : Matrix τ) (x y) (v : τ.Carrier) : Accesses (m.set x y v)
  | trySetCell {τ} (m : Matrix τ) (x y) (v : τ.Carrier) : Accesses (m.trySet x y v)
  | head {σ τ} (p : TailedPtr σ τ) : Accesses p.head
  | setHead {σ τ} (p : TailedPtr σ τ) (x : σ.Carrier) : Accesses (p.setHead x)
  | tailLength {σ τ} (p : TailedPtr σ τ) : Accesses p.tailLength
  | tail {σ τ} (p : TailedPtr σ τ) : Accesses p.tail
  -- arrays of fixed length
  | fixedIndex {τ} (x : FixedArray τ) (i) : Accesses (x.index i)
  | fixedSet {τ} (x : FixedArray τ) (i) (v : τ.Carrier) : Accesses (x.set i v)
  | fixedToList {τ} (x : FixedArray τ) : Accesses x.toList
  | fixedOverwrite {τ} (x : FixedArray τ) (xs : List τ.Carrier) :
    Accesses (x.overwrite xs)
  | fixedZero {τ} (x : FixedArray τ) : Accesses x.zero
  | fixedSame {τ} (x y : FixedArray τ) : Accesses (x.same y)
  | fixedDescribe {τ} (x : FixedArray τ) : Accesses x.describe
  | globalIndex {τ} (x : GlobalArray τ) (i) : Accesses (x.index i)
  | globalZero {τ} (x : GlobalArray τ) : Accesses x.zero
  -- on another stack
  | thread (r argument) : Accesses (Thread.run r argument)

/-- One pointer of another, checked. -/
inductive Converts : {β : Type} → Except Violation β → Prop where
  | locate {P} [ArrayLike P] {τ} (p : P τ) (i) : Converts (ArrayLike.locate p i)
  | requireSpan {P} [ArrayLike P] {τ} (p : P τ) (count) :
    Converts (ArrayLike.requireSpan p count)
  | remaining {P} [ArrayLike P] {τ} (p : P τ) : Converts (ArrayLike.remaining p)
  | toPtr {τ} (p : ArrayPtr τ) : Converts p.toPtr
  | toStackPtr {τ} (p : StackArrayPtr τ) : Converts p.toStackPtr
  | objectOffStack {τ} (p : StackPtr τ) : Converts (Ptr.ofStack p)
  | arrayOffStack {τ} (p : StackArrayPtr τ) : Converts (ArrayPtr.ofStack p)
  | assign {τ} (p q : StackPtr τ) : Converts (p.assign q)
  | pointTo {τ} (p : StackPtr τ) (a) : Converts (p.pointTo a)
  | assignArray {τ} (p q : StackArrayPtr τ) : Converts (p.assign q)
  | object {τ} (p : Ptr τ) (σ) : Converts (p.reinterpret σ)
  | array {τ} (p : ArrayPtr τ) (σ) : Converts (p.reinterpret σ)
  | stackArray {τ} (p : StackArrayPtr τ) (σ) : Converts (p.reinterpret σ)
  | fixedArray {τ} (x : FixedArray τ) : Converts x.toArrayPtr
  | fixedArrayAt {τ} (x : FixedArray τ) (i) : Converts (x.offsetArrayPtr i)
  | fixedStackArrayAt {τ} (f) (x : FixedArray τ) (i) : Converts (x.offset f i)
  | globalArrayAt {τ} (x : GlobalArray τ) (i) : Converts (x.offset i)

/-! ## 3. Bytes, strings and streams -/

/-- Operations on runs of elements or bytes. -/
inductive Transfers : {α : Type} → Operation α → Prop where
  | zero {P} [ArrayLike P] {τ} (dst : P τ) (count) : Transfers (Bulk.zero dst count)
  | fill {P} [ArrayLike P] {τ} (dst : P τ) (x : τ.Carrier) (count) :
    Transfers (Bulk.fill dst x count)
  | copy {P Q} [ArrayLike P] [ArrayLike Q] {τ} (dst : P τ) (src : Q τ) (count) :
    Transfers (Bulk.copy dst src count)
  | cloneInto {P Q} [ArrayLike P] [ArrayLike Q] {τ} (dst : P τ) (src : Q τ) (count) :
    Transfers (Bulk.cloneInto dst src count)
  | copyTrivial {P Q} [ArrayLike P] [ArrayLike Q] {τ} (dst : P τ) (src : Q τ) (count) :
    Transfers (Bulk.copyTrivial dst src count)
  | memset {P} [ArrayLike P] {τ} (dst : P τ) (b bytes) :
    Transfers (Bulk.memset dst b bytes)
  | memcpy {P Q} [ArrayLike P] [ArrayLike Q] {τ} (dst : P τ) (src : Q τ) (bytes) :
    Transfers (Bulk.memcpy dst src bytes)
  | memmove {P Q} [ArrayLike P] [ArrayLike Q] {τ} (dst : P τ) (src : Q τ) (bytes) :
    Transfers (Bulk.memmove dst src bytes)
  | memcmp {P Q} [ArrayLike P] [ArrayLike Q] {τ} (p : P τ) (q : Q τ) (bytes) :
    Transfers (Bulk.memcmp p q bytes)

/-- Operations on terminated strings. -/
inductive Strings : {α : Type} → Operation α → Prop where
  | length {P} [ArrayLike P] (p : P .uint8) : Strings (CString.length p)
  | contents {P} [ArrayLike P] (p : P .uint8) : Strings (CString.contents p)
  | compare {P Q} [ArrayLike P] [ArrayLike Q] (p : P .uint8) (q : Q .uint8) :
    Strings (CString.compare p q)
  | compareLeading {P Q} [ArrayLike P] [ArrayLike Q] (p : P .uint8) (q : Q .uint8) (n) :
    Strings (CString.compareLeading p q n)
  | find? {P} [ArrayLike P] (p : P .uint8) (c) : Strings (CString.find? p c)
  | append {P Q} [ArrayLike P] [ArrayLike Q] (dst : P .uint8) (src : Q .uint8) (n) :
    Strings (CString.append dst src n)
  | appendAll {P Q} [ArrayLike P] [ArrayLike Q] (dst : P .uint8) (src : Q .uint8) :
    Strings (CString.appendAll dst src)
  | copy {P Q} [ArrayLike P] [ArrayLike Q] (dst : P .uint8) (src : Q .uint8) :
    Strings (CString.copy dst src)
  | copyPadded {P Q} [ArrayLike P] [ArrayLike Q] (dst : P .uint8) (src : Q .uint8) (n) :
    Strings (CString.copyPadded dst src n)
  | print {P} [ArrayLike P] (buffer : P .uint8) (size text) :
    Strings (CString.print buffer size text)
  | tokenize {P} [ArrayLike P] (text : P .uint8) : Strings (Tokenizer.new text)
  | nextToken {P Q} [ArrayLike P] [ArrayLike Q] (k : Tokenizer P) (delims : Q .uint8) :
    Strings (k.next delims)

/-- Operations on streams. -/
inductive Streams : {α : Type} → Operation α → Prop where
  | openFile {P Q} [ArrayLike P] [ArrayLike Q] (name : P .uint8) (mode : Q .uint8) :
    Streams (StreamPtr.openFile name mode)
  | flush (f) : Streams (StreamPtr.flush f)
  | close (f) : Streams (StreamPtr.close f)
  | getByte (f) : Streams (StreamPtr.getByte f)
  | readInto {P} [ArrayLike P] {τ} (f) (buffer : P τ) (count) :
    Streams (StreamPtr.readInto f buffer count)
  | writeFrom {P} [ArrayLike P] {τ} (f) (buffer : P τ) (count) :
    Streams (StreamPtr.writeFrom f buffer count)
  | readLine {P} [ArrayLike P] (f) (buffer : P .uint8) (room) :
    Streams (StreamPtr.readLine f buffer room)
  | writeString {P} [ArrayLike P] (f) (text : P .uint8) : Streams (StreamPtr.writeString f text)
  | seek (f offset origin) : Streams (StreamPtr.seek f offset origin)
  | tell (f) : Streams (StreamPtr.tell f)
  | atEnd (f) : Streams (StreamPtr.atEnd f)
  | failed (f) : Streams (StreamPtr.failed f)
  | readWordInto {P} [ArrayLike P] (f) (buffer : P .uint8) :
    Streams (StreamPtr.readWordInto f buffer)
  | readWord (f form) : Streams (StreamPtr.readWord f form)
  | print (f text) : Streams (StreamPtr.print f text)

/-! ## 4. All of them -/

/-- An operation of the library, unless it resizes or is handed a value for good. -/
inductive Offers : {α : Type} → Operation α → Prop where
  | allocate {α} {a : Operation α} (ha : Allocates a) : Offers a
  | release {α} {a : Operation α} (ha : Releases a) : Offers a
  | access {α} {a : Operation α} (ha : Accesses a) : Offers a
  | convert {α} {r : Except Violation α} (hr : Converts r) : Offers (check r)
  | toBegin {P} [ArrayLike P] {τ} (p : P τ) : Offers (ofChecked (ArrayLike.toBegin p))
  | toEnd {P} [ArrayLike P] {τ} (p : P τ) : Offers (ofChecked (ArrayLike.toEnd p))
  | transfer {α} {a : Operation α} (ha : Transfers a) : Offers a
  | string {α} {a : Operation α} (ha : Strings a) : Offers a
  | stream {α} {a : Operation α} (ha : Streams a) : Offers a

end CheckedMemory
