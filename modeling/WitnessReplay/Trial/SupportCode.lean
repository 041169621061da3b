/-!
# Support code

The C text that every instrumented program is linked with. It defines the markers, so that the
threads take their turns in the order of the barriers; the function that reports the error; and the
functions that give nondeterministic values, all of them zero.
-/

namespace WitnessReplay

/-- The name of the file that holds the support code. -/
def supportFileName : String := "svcomp.c"

/-- The lines of the support code. -/
def supportLines : List String := [
  "#include <pthread.h>",
  "#include <stdatomic.h>",
  "#include <stddef.h>",
  "#include <stdint.h>",
  "#include <stdio.h>",
  "#include <stdlib.h>",
  "",
  "void __VERIFIER_atomic_begin(void) \x7b\x7d",
  "void __VERIFIER_atomic_end(void) \x7b\x7d",
  "",
  "void reach_error() \x7b",
  "    printf(\"Reached error!\\n\");",
  "    fflush(stdout);",
  "    exit(74);",
  "\x7d",
  "",
  "static pthread_mutex_t barrier_lock = PTHREAD_MUTEX_INITIALIZER;",
  "static pthread_cond_t barrier_cond = PTHREAD_COND_INITIALIZER;",
  "static atomic_int barrier_counter = 0;",
  "",
  "/* Blocks until every barrier numbered below seq has been released. Progress",
  "   goes to stderr so the stdout marker stays clean. */",
  "void yield(int seq, int thread_id) \x7b",
  "    pthread_mutex_lock(&barrier_lock);",
  "    fprintf(stderr, \"Paused thread %d at %d until %d\\n\", "
    ++ "thread_id, atomic_load(&barrier_counter), seq);",
  "    while (atomic_load(&barrier_counter) < seq) \x7b",
  "        pthread_cond_wait(&barrier_cond, &barrier_lock);",
  "    \x7d",
  "    pthread_mutex_unlock(&barrier_lock);",
  "    fprintf(stderr, \"Resumed thread %d at %d\\n\", thread_id, seq);",
  "\x7d",
  "",
  "/* Marks barrier seq as passed and wakes waiting threads. */",
  "void release(int seq, int thread_id) \x7b",
  "    pthread_mutex_lock(&barrier_lock);",
  "    if (atomic_load(&barrier_counter) <= seq) \x7b",
  "        atomic_store(&barrier_counter, seq + 1);",
  "    \x7d",
  "    pthread_cond_broadcast(&barrier_cond);",
  "    pthread_mutex_unlock(&barrier_lock);",
  "    fprintf(stderr, \"Released %d (thread %d)\\n\", seq + 1, thread_id);",
  "\x7d",
  "",
  "_Bool __VERIFIER_nondet_bool(void) \x7b return 0; \x7d",
  "char __VERIFIER_nondet_char(void) \x7b return 0; \x7d",
  "char *__VERIFIER_nondet_charp(void) \x7b return 0; \x7d",
  "const char *__VERIFIER_nondet_const_char_pointer(void) \x7b return 0; \x7d",
  "double __VERIFIER_nondet_double(void) \x7b return 0; \x7d",
  "float __VERIFIER_nondet_float(void) \x7b return 0; \x7d",
  "int __VERIFIER_nondet_int(void) \x7b return 0; \x7d",
  "long __VERIFIER_nondet_long(void) \x7b return 0; \x7d",
  "long long __VERIFIER_nondet_longlong(void) \x7b return 0; \x7d",
  "void *__VERIFIER_nondet_pointer(void) \x7b return 0; \x7d",
  "short __VERIFIER_nondet_short(void) \x7b return 0; \x7d",
  "size_t __VERIFIER_nondet_size_t(void) \x7b return 0; \x7d",
  "uint16_t __VERIFIER_nondet_u16(void) \x7b return 0; \x7d",
  "uint32_t __VERIFIER_nondet_u32(void) \x7b return 0; \x7d",
  "uint8_t __VERIFIER_nondet_u8(void) \x7b return 0; \x7d",
  "unsigned char __VERIFIER_nondet_uchar(void) \x7b return 0; \x7d",
  "unsigned int __VERIFIER_nondet_uint(void) \x7b return 0; \x7d",
  "unsigned __int128 __VERIFIER_nondet_uint128(void) \x7b return 0; \x7d",
  "unsigned long __VERIFIER_nondet_ulong(void) \x7b return 0; \x7d",
  "unsigned long long __VERIFIER_nondet_ulonglong(void) \x7b return 0; \x7d",
  "unsigned __VERIFIER_nondet_unsigned(void) \x7b return 0; \x7d",
  "unsigned char __VERIFIER_nondet_unsigned_char(void) \x7b return 0; \x7d",
  "unsigned int __VERIFIER_nondet_unsigned_int(void) \x7b return 0; \x7d",
  "unsigned short __VERIFIER_nondet_ushort(void) \x7b return 0; \x7d"]

/-- The text of the support code. -/
def supportSource : String :=
  String.join (supportLines.map (· ++ "\n"))

end WitnessReplay
