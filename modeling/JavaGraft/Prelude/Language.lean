import JavaGraft.Prelude.Stub

/-!
# Stubs of the language's own package

Texts, numbers, boxes, exceptions and the interfaces that the language refers to.
-/

namespace JavaGraft.Prelude

/-- The stubs of `java.lang`. -/
def languageStubs : List Stub := [
  ⟨"public class Object", ["Object()"], "
      public boolean equals(Object other);
      public int hashCode();
      public String toString();
      public final Class<?> getClass();"⟩,
  ⟨"public final class Class<T>", [], "
      public String getName();
      public String getSimpleName();
      public boolean isInstance(Object obj);"⟩,
  ⟨"public interface CharSequence", [], "
      int length();
      char charAt(int index);
      CharSequence subSequence(int start, int end);
      String toString();
      default boolean isEmpty();"⟩,
  ⟨"public interface Comparable<T>", [], "
      int compareTo(T other);"⟩,
  ⟨"public interface Iterable<T>", [], "
      Iterator<T> iterator();"⟩,
  ⟨"public interface Runnable", [], "
      void run();"⟩,
  ⟨"public interface AutoCloseable", [], "
      void close() throws Exception;"⟩,
  ⟨"public final class String implements CharSequence, Comparable<String>",
    ["String()", "String(char[] value)"], "
      public int length();
      public boolean isEmpty();
      public boolean isBlank();
      public char charAt(int index);
      public CharSequence subSequence(int start, int end);
      public String substring(int begin);
      public String substring(int begin, int end);
      public int indexOf(String str);
      public int lastIndexOf(String str);
      public boolean contains(CharSequence s);
      public boolean startsWith(String prefix);
      public boolean endsWith(String suffix);
      public boolean equals(Object other);
      public boolean equalsIgnoreCase(String other);
      public int compareTo(String other);
      public String trim();
      public String strip();
      public String toUpperCase();
      public String toLowerCase();
      public String concat(String str);
      public String replace(CharSequence target, CharSequence replacement);
      public String repeat(int count);
      public String[] split(String regex);
      public char[] toCharArray();
      public String intern();
      public static String valueOf(Object obj);
      public static String valueOf(int i);
      public static String valueOf(char c);
      public static String format(String format, Object... args);
      public static String join(CharSequence delimiter, CharSequence... elements);"⟩,
  ⟨"public final class StringBuilder implements CharSequence",
    ["StringBuilder()", "StringBuilder(String str)"], "
      public StringBuilder append(String str);
      public StringBuilder append(Object obj);
      public StringBuilder append(int i);
      public StringBuilder append(char c);
      public StringBuilder insert(int offset, String str);
      public StringBuilder reverse();
      public int length();
      public char charAt(int index);
      public CharSequence subSequence(int start, int end);
      public String toString();"⟩,
  ⟨"public abstract class Number", [], "
      public abstract int intValue();
      public abstract long longValue();
      public abstract double doubleValue();"⟩,
  ⟨"public final class Integer extends Number implements Comparable<Integer>", [], "
      public static final int MAX_VALUE = 2147483647;
      public static final int MIN_VALUE = -2147483648;
      public static int parseInt(String s);
      public static Integer valueOf(int i);
      public static String toString(int i);
      public int compareTo(Integer other);"⟩,
  ⟨"public final class Long extends Number implements Comparable<Long>", [], "
      public static final long MAX_VALUE = 9223372036854775807L;
      public static long parseLong(String s);
      public static Long valueOf(long l);
      public int compareTo(Long other);"⟩,
  ⟨"public final class Double extends Number implements Comparable<Double>", [], "
      public static double parseDouble(String s);
      public static Double valueOf(double d);
      public static boolean isNaN(double d);
      public int compareTo(Double other);"⟩,
  ⟨"public final class Float extends Number", [], "
      public static float parseFloat(String s);"⟩,
  ⟨"public final class Short extends Number", [], ""⟩,
  ⟨"public final class Byte extends Number", [], ""⟩,
  ⟨"public final class Boolean implements Comparable<Boolean>", [], "
      public static final Boolean TRUE = null;
      public static final Boolean FALSE = null;
      public static boolean parseBoolean(String s);
      public boolean booleanValue();
      public int compareTo(Boolean other);"⟩,
  ⟨"public final class Character implements Comparable<Character>", [], "
      public static boolean isDigit(char c);
      public static boolean isLetter(char c);
      public static boolean isWhitespace(char c);
      public static char toUpperCase(char c);
      public char charValue();
      public int compareTo(Character other);"⟩,
  ⟨"public final class Math", [], "
      public static final double PI = 3.141592653589793;
      public static final double E = 2.718281828459045;
      public static int abs(int a);
      public static double abs(double a);
      public static int max(int a, int b);
      public static double max(double a, double b);
      public static int min(int a, int b);
      public static double min(double a, double b);
      public static double sqrt(double a);
      public static double pow(double a, double b);
      public static double floor(double a);
      public static double ceil(double a);
      public static long round(double a);"⟩,
  ⟨"public final class System", [], "
      public static final java.io.PrintStream out = null;
      public static final java.io.PrintStream err = null;
      public static long currentTimeMillis();
      public static long nanoTime();
      public static String getProperty(String key);
      public static String lineSeparator();
      public static void exit(int status);"⟩,
  ⟨"public abstract class Enum<E extends Enum<E>> implements Comparable<E>", [], "
      public final String name();
      public final int ordinal();
      public String toString();"⟩,
  ⟨"public class Throwable", ["Throwable()", "Throwable(String message)"], "
      public String getMessage();
      public Throwable getCause();
      public void printStackTrace();"⟩,
  ⟨"public class Exception extends Throwable", ["Exception()", "Exception(String message)"], ""⟩,
  ⟨"public class Error extends Throwable", ["Error(String message)"], ""⟩,
  ⟨"public class RuntimeException extends Exception",
    ["RuntimeException()", "RuntimeException(String message)"], ""⟩,
  ⟨"public class IllegalArgumentException extends RuntimeException",
    ["IllegalArgumentException(String message)"], ""⟩,
  ⟨"public class IllegalStateException extends RuntimeException",
    ["IllegalStateException(String message)"], ""⟩,
  ⟨"public class NullPointerException extends RuntimeException",
    ["NullPointerException(String message)"], ""⟩,
  ⟨"public class UnsupportedOperationException extends RuntimeException",
    ["UnsupportedOperationException(String message)"], ""⟩,
  ⟨"public @interface Override", [], ""⟩,
  ⟨"public @interface Deprecated", [], ""⟩,
  ⟨"public @interface FunctionalInterface", [], ""⟩,
  ⟨"public @interface SuppressWarnings", [], "
      String[] value();"⟩
]

/-- The file of `java.lang`. -/
def languageFile : StubFile :=
  ⟨"java/lang/prelude.java", "java.lang", ["java.util.Iterator"], languageStubs⟩

end JavaGraft.Prelude
