import LinkedDeque.World

/-!
# LinkedDeque.Forms

The forms in which the operations at an end are asked for. Each is one shared operation with values of
its own: the end, and for a push how the byte length is determined.

* Plain pushes record a byte length of zero.
* Sized pushes record the byte length that is given.
* Text pushes measure it, up to the terminator.

A queue takes entries in at the back and gives them out at the front.
-/

namespace LinkedDeque.Op

variable {σ α : Type}

/-! ## Pushes -/

def pushBackWith (v : α) (spec : ByteLen) : Op σ α := push .after v spec

def pushFrontWith (v : α) (spec : ByteLen) : Op σ α := push .before v spec

def pushBackSized (v : α) (n : UInt64) : Op σ α := push .after v (.exact n)

def pushFrontSized (v : α) (n : UInt64) : Op σ α := push .before v (.exact n)

def pushBack (v : α) : Op σ α := pushBackSized v 0

def pushFront (v : α) : Op σ α := pushFrontSized v 0

def pushBackText (v : α) : Op σ α := pushBackWith v .text

def pushFrontText (v : α) : Op σ α := pushFrontWith v .text

def enqueue (v : α) : Op σ α := pushBack v

def enqueueSized (v : α) (n : UInt64) : Op σ α := pushBackSized v n

def enqueueText (v : α) : Op σ α := pushBackText v

/-! ## Pops and peeks -/

def popBackEntry : Op σ α := pop .after

def popFrontEntry : Op σ α := pop .before

def dequeueEntry : Op σ α := popFrontEntry

def front (write : Option α) : Op σ α := peek .before write

def back (write : Option α) : Op σ α := peek .after write

end LinkedDeque.Op
