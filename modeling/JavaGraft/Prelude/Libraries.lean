import JavaGraft.Prelude.Stub

/-!
# Stubs of the libraries

Streams, collections and function types.
-/

namespace JavaGraft.Prelude

/-- The stubs of `java.io`. -/
def streamStubs : List Stub := [
  ⟨"public interface Serializable", [], ""⟩,
  ⟨"public interface Closeable extends AutoCloseable", [], "
      void close() throws IOException;"⟩,
  ⟨"public class IOException extends Exception", ["IOException(String message)"], ""⟩,
  ⟨"public class PrintStream implements Closeable", [], "
      public void print(String s);
      public void print(Object obj);
      public void println();
      public void println(String s);
      public void println(Object obj);
      public void println(int i);
      public void println(long l);
      public void println(double d);
      public void println(boolean b);
      public void println(char c);
      public PrintStream printf(String format, Object... args);
      public void flush();
      public void close();"⟩
]

/-- The stubs of `java.util`. -/
def collectionStubs : List Stub := [
  ⟨"public interface Iterator<E>", [], "
      boolean hasNext();
      E next();"⟩,
  ⟨"public interface Collection<E> extends Iterable<E>", [], "
      int size();
      boolean isEmpty();
      boolean contains(Object o);
      boolean add(E e);
      boolean remove(Object o);
      void clear();"⟩,
  ⟨"public interface List<E> extends Collection<E>", [], "
      E get(int index);
      E set(int index, E element);
      int indexOf(Object o);
      static <T> List<T> of(T... elements);"⟩,
  ⟨"public interface Set<E> extends Collection<E>", [], "
      static <T> Set<T> of(T... elements);"⟩,
  ⟨"public interface Map<K, V>", [], "
      int size();
      boolean isEmpty();
      V get(Object key);
      V put(K key, V value);
      V remove(Object key);
      V getOrDefault(Object key, V defaultValue);
      boolean containsKey(Object key);
      Set<K> keySet();
      Collection<V> values();"⟩,
  ⟨"public class ArrayList<E> implements List<E>", ["ArrayList()", "ArrayList(int capacity)"], ""⟩,
  ⟨"public class LinkedList<E> implements List<E>", ["LinkedList()"], ""⟩,
  ⟨"public class HashSet<E> implements Set<E>", ["HashSet()"], ""⟩,
  ⟨"public class HashMap<K, V> implements Map<K, V>", ["HashMap()"], ""⟩,
  ⟨"public final class Optional<T>", [], "
      public static <T> Optional<T> of(T value);
      public static <T> Optional<T> empty();
      public boolean isPresent();
      public T get();
      public T orElse(T other);"⟩,
  ⟨"public final class Objects", [], "
      public static boolean equals(Object a, Object b);
      public static boolean isNull(Object obj);
      public static int hash(Object... values);
      public static String toString(Object obj);
      public static <T> T requireNonNull(T obj);"⟩,
  ⟨"public final class Arrays", [], "
      public static <T> List<T> asList(T... a);
      public static String toString(Object[] a);
      public static void sort(int[] a);"⟩,
  ⟨"public final class Collections", [], "
      public static <T> List<T> emptyList();
      public static <T> List<T> unmodifiableList(List<T> list);"⟩
]

/-- The stubs of `java.util.function`. -/
def functionStubs : List Stub := [
  ⟨"public interface Function<T, R>", [], "
      R apply(T t);"⟩,
  ⟨"public interface BiFunction<T, U, R>", [], "
      R apply(T t, U u);"⟩,
  ⟨"public interface Supplier<T>", [], "
      T get();"⟩,
  ⟨"public interface Consumer<T>", [], "
      void accept(T t);"⟩,
  ⟨"public interface Predicate<T>", [], "
      boolean test(T t);"⟩
]

/-- The files of the libraries. -/
def libraryFiles : List StubFile := [
  ⟨"java/io/prelude.java", "java.io", [], streamStubs⟩,
  ⟨"java/util/prelude.java", "java.util", [], collectionStubs⟩,
  ⟨"java/util/function/prelude.java", "java.util.function", [], functionStubs⟩]

end JavaGraft.Prelude
